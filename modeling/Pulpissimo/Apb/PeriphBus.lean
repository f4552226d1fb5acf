import Mathlib.Data.BitVec
import Pulpissimo.Lib.Select

/-!
# The APB peripheral bus

`apb_node` decodes a slave-port address against one inclusive range per
master port and multiplexes the responses back by a loop over the ports.
`periph_bus_wrap` instantiates it with the eleven ranges of the define file.
The decode is compared with the datasheet's memory map at every address.
-/

namespace Pulpissimo.Apb.PeriphBus

open Pulpissimo.Select

/-- Request side of an APB port as the bus reads it from its slave port. -/
structure Request where
  /-- Access phase of the transfer. -/
  penable : Bool
  /-- Direction, true for a write. -/
  pwrite : Bool
  /-- Byte address. -/
  paddr : BitVec 32
  /-- Write data. -/
  pwdata : BitVec 32
  deriving DecidableEq

/-- Response side of an APB port. -/
structure Response where
  /-- Read data. -/
  prdata : BitVec 32
  /-- End of the transfer. -/
  pready : Bool
  /-- Error flag. -/
  pslverr : Bool
  deriving DecidableEq

/-- What one peripheral observes on its port. -/
structure Port where
  /-- Select of this peripheral. -/
  psel : Bool
  /-- Access phase, gated by the select. -/
  penable : Bool
  /-- Direction, gated by the select. -/
  pwrite : Bool
  /-- Byte address, gated by the select. -/
  paddr : BitVec 32
  /-- Write data, gated by the select. -/
  pwdata : BitVec 32
  deriving DecidableEq

section Node

variable {NB_MASTER : ℕ} (START_ADDR_i END_ADDR_i : Fin NB_MASTER → BitVec 32)

/-- The address decoder: one inclusive range comparison per port. -/
def psel_o (paddr_i : BitVec 32) (i : Fin NB_MASTER) : Bool :=
  decide (START_ADDR_i i ≤ paddr_i) && decide (paddr_i ≤ END_ADDR_i i)

/-- The request signals of port `i`, all zero unless it is selected. -/
def masterPort (r : Request) (i : Fin NB_MASTER) : Port :=
  if psel_o START_ADDR_i END_ADDR_i r.paddr i=true then
    ⟨true,r.penable,r.pwrite,r.paddr,r.pwdata⟩
  else ⟨false,false,false,0,0⟩

/-- The three response multiplexers, each a loop over the ports. -/
def slaveResponse (r : Request) (responses : Fin NB_MASTER → Response) : Response :=
  let sel := psel_o START_ADDR_i END_ADDR_i r.paddr
  ⟨muxLoop sel (fun i => (responses i).prdata) 0,
    muxLoop sel (fun i => (responses i).pready) false,
    muxLoop sel (fun i => (responses i).pslverr) false⟩

/-- The whole node: what every peripheral observes and what the master sees. -/
def apb_node (r : Request) (responses : Fin NB_MASTER → Response) :
    (Fin NB_MASTER → Port)×Response :=
  (masterPort START_ADDR_i END_ADDR_i r,slaveResponse START_ADDR_i END_ADDR_i r responses)

/-- A port observes a select exactly when its range holds the address. -/
theorem apb_node_psel (r : Request) (responses : Fin NB_MASTER → Response) (i : Fin NB_MASTER) :
    ((apb_node START_ADDR_i END_ADDR_i r responses).1 i).psel=true ↔
      START_ADDR_i i ≤ r.paddr ∧ r.paddr≤END_ADDR_i i := by
  simp only [apb_node,masterPort]
  split_ifs with h <;> simpa [psel_o] using h

/-- The master sees the response of the only selected port. -/
theorem apb_node_response (r : Request) (responses : Fin NB_MASTER → Response) {i : Fin NB_MASTER}
    (hi : psel_o START_ADDR_i END_ADDR_i r.paddr i=true)
    (hu : ∀ j, psel_o START_ADDR_i END_ADDR_i r.paddr j=true → j=i) :
    (apb_node START_ADDR_i END_ADDR_i r responses).2=responses i := by
  simp only [apb_node,slaveResponse,muxLoop_unique _ _ _ hi hu]

end Node

/-- The eleven peripherals in the order of their bus ports. -/
inductive Periph
  | fll | gpio | udma | soc_ctrl | adv_timer | soc_evnt_gen | eu | timer | hwpe | stdout | mmap_debug
  deriving DecidableEq

/-- Bus port that `periph_bus_wrap` assigns to a peripheral. -/
def Periph.index : Periph → Fin 11
  | .fll => 0 | .gpio => 1 | .udma => 2 | .soc_ctrl => 3 | .adv_timer => 4 | .soc_evnt_gen => 5
  | .eu => 6 | .timer => 7 | .hwpe => 8 | .stdout => 9 | .mmap_debug => 10

/-- The peripheral behind a bus port. -/
def Periph.ofIndex : Fin 11 → Periph
  | 0 => .fll | 1 => .gpio | 2 => .udma | 3 => .soc_ctrl | 4 => .adv_timer | 5 => .soc_evnt_gen
  | 6 => .eu | 7 => .timer | 8 => .hwpe | 9 => .stdout | 10 => .mmap_debug

@[simp] theorem Periph.ofIndex_index (p : Periph) : Periph.ofIndex p.index=p := by
  cases p <;> rfl

@[simp] theorem Periph.index_ofIndex (i : Fin 11) : (Periph.ofIndex i).index=i := by
  revert i
  decide

/-- First address of each range in the define file. -/
def Periph.startAddr : Periph → BitVec 32
  | .fll => 0x1A100000#32 | .gpio => 0x1A101000#32 | .udma => 0x1A102000#32 | .soc_ctrl => 0x1A104000#32
  | .adv_timer => 0x1A105000#32 | .soc_evnt_gen => 0x1A106000#32 | .eu => 0x1A109000#32
  | .timer => 0x1A10B000#32 | .hwpe => 0x1A10C000#32 | .stdout => 0x1A10F000#32 | .mmap_debug => 0x1A110000#32

/-- Last address of each range in the define file. -/
def Periph.endAddr : Periph → BitVec 32
  | .fll => 0x1A100FFF#32 | .gpio => 0x1A10AFFF#32 | .udma => 0x1A104FFF#32 | .soc_ctrl => 0x1A104FFF#32
  | .adv_timer => 0x1A105FFF#32 | .soc_evnt_gen => 0x1A106FFF#32 | .eu => 0x1A10AFFF#32
  | .timer => 0x1A10BFFF#32 | .hwpe => 0x1A10CFFF#32 | .stdout => 0x1A10FFFF#32 | .mmap_debug => 0x1A11FFFF#32

/-- `periph_bus_wrap`: the node with the ranges of the define file and each
port wired to its peripheral. -/
def periph_bus_wrap (r : Request) (responses : Periph → Response) : (Periph → Port)×Response :=
  let node := apb_node (fun i => (Periph.ofIndex i).startAddr) (fun i => (Periph.ofIndex i).endAddr)
    r (fun i => responses (Periph.ofIndex i))
  (fun p => node.1 p.index,node.2)

/-- A peripheral is selected exactly inside its range of the define file. -/
theorem periph_bus_wrap_psel (r : Request) (responses : Periph → Response) (p : Periph) :
    ((periph_bus_wrap r responses).1 p).psel=true ↔ p.startAddr ≤ r.paddr ∧ r.paddr≤p.endAddr := by
  simp only [periph_bus_wrap,apb_node_psel,Periph.ofIndex_index]

/-- The master sees the response of a peripheral that alone is selected. -/
theorem periph_bus_wrap_response (r : Request) (responses : Periph → Response) {p : Periph}
    (hp : p.startAddr ≤ r.paddr ∧ r.paddr≤p.endAddr)
    (hu : ∀ q : Periph, q.startAddr ≤ r.paddr ∧ r.paddr≤q.endAddr → q=p) :
    (periph_bus_wrap r responses).2=responses p := by
  have hport := apb_node_response (fun i => (Periph.ofIndex i).startAddr)
    (fun i => (Periph.ofIndex i).endAddr) r (fun i => responses (Periph.ofIndex i)) (i := p.index)
  simp only [psel_o,Bool.and_eq_true,decide_eq_true_eq,Periph.ofIndex_index] at hport
  refine hport hp (fun j hj => ?_)
  rw [←hu _ hj,Periph.index_ofIndex]

/-- The datasheet's memory map. A section starts at the printed address and
ends before the next section, or earlier where the define file ends it. -/
def Periph.Documented (p : Periph) (addr : BitVec 32) : Prop :=
  match p with
  | .fll => 0x1A100000#32≤addr ∧ addr≤0x1A100FFF#32
  | .gpio => 0x1A101000#32≤addr ∧ addr≤0x1A101FFF#32
  | .udma => 0x1A102000#32≤addr ∧ addr≤0x1A103FFF#32
  | .soc_ctrl => 0x1A104000#32≤addr ∧ addr≤0x1A104FFF#32
  | .adv_timer => 0x1A105000#32≤addr ∧ addr≤0x1A105FFF#32
  | .soc_evnt_gen => 0x1A106000#32≤addr ∧ addr≤0x1A106FFF#32
  | .eu => 0x1A109000#32≤addr ∧ addr≤0x1A10AFFF#32
  | .timer => 0x1A10B000#32≤addr ∧ addr≤0x1A10BFFF#32
  | .hwpe => 0x1A10C000#32≤addr ∧ addr≤0x1A10CFFF#32
  | .stdout => 0x1A10F000#32≤addr ∧ addr≤0x1A10FFFF#32
  | .mmap_debug => 0x1A110000#32≤addr ∧ addr≤0x1A11FFFF#32

/-- An access at `addr` reaches at most one peripheral, and inside a
documented section exactly its peripheral, whose response the master sees. -/
def DecodesAsDocumented (addr : BitVec 32) : Prop :=
  ∀ (r : Request) (responses : Periph → Response), r.paddr=addr →
    let bus := periph_bus_wrap r responses
    (∀ p q, (bus.1 p).psel=true → (bus.1 q).psel=true → p=q) ∧
    ∀ p : Periph, p.Documented addr →
      (∀ q, (bus.1 q).psel=true ↔ q=p) ∧ bus.2=responses p

/-- The two address blocks where the GPIO range runs over its neighbours. -/
def Overlapped (addr : BitVec 32) : Prop :=
  (0x1A102000#32≤addr ∧ addr≤0x1A106FFF#32) ∨ (0x1A109000#32≤addr ∧ addr≤0x1A10AFFF#32)

instance (addr : BitVec 32) : Decidable (Overlapped addr) := by
  unfold Overlapped
  infer_instance

/-- Outside the overlapped blocks the ranges of the define file are disjoint. -/
theorem range_unique {addr : BitVec 32} (h : ¬Overlapped addr) {p q : Periph}
    (hp : p.startAddr≤addr ∧ addr≤p.endAddr) (hq : q.startAddr≤addr ∧ addr≤q.endAddr) : p=q := by
  simp only [Overlapped,BitVec.le_def,BitVec.toNat_ofNat] at h
  cases p <;> cases q <;>
    simp only [Periph.startAddr,Periph.endAddr,BitVec.le_def,BitVec.toNat_ofNat] at hp hq <;>
    first | rfl | omega

/-- A documented section lies inside its peripheral's range. -/
theorem range_of_documented {addr : BitVec 32} {p : Periph} (h : p.Documented addr) :
    p.startAddr≤addr ∧ addr≤p.endAddr := by
  cases p <;>
    simp only [Periph.Documented,Periph.startAddr,Periph.endAddr,BitVec.le_def,
      BitVec.toNat_ofNat] at h ⊢ <;> omega

/-- Inside the overlapped blocks the GPIO is selected together with the
peripheral the block is documented for. -/
theorem shared_of_overlapped {addr : BitVec 32} (h : Overlapped addr) :
    ∃ p : Periph, p≠.gpio ∧ (p.startAddr≤addr ∧ addr≤p.endAddr) ∧
      (Periph.gpio.startAddr≤addr ∧ addr≤Periph.gpio.endAddr) := by
  have hsplit : (Periph.udma.startAddr≤addr ∧ addr≤Periph.udma.endAddr) ∨
      (Periph.adv_timer.startAddr≤addr ∧ addr≤Periph.adv_timer.endAddr) ∨
      (Periph.soc_evnt_gen.startAddr≤addr ∧ addr≤Periph.soc_evnt_gen.endAddr) ∨
      (Periph.eu.startAddr≤addr ∧ addr≤Periph.eu.endAddr) := by
    simp only [Overlapped,Periph.startAddr,Periph.endAddr,BitVec.le_def,
      BitVec.toNat_ofNat] at h ⊢
    omega
  have hgpio : Periph.gpio.startAddr≤addr ∧ addr≤Periph.gpio.endAddr := by
    simp only [Overlapped,Periph.startAddr,Periph.endAddr,BitVec.le_def,
      BitVec.toNat_ofNat] at h ⊢
    omega
  rcases hsplit with hp | hp | hp | hp
  · exact ⟨.udma,by decide,hp,hgpio⟩
  · exact ⟨.adv_timer,by decide,hp,hgpio⟩
  · exact ⟨.soc_evnt_gen,by decide,hp,hgpio⟩
  · exact ⟨.eu,by decide,hp,hgpio⟩

/-- An overlapped address reaches two peripherals. -/
theorem not_decodesAsDocumented_of_overlapped {addr : BitVec 32} (h : Overlapped addr) :
    ¬DecodesAsDocumented addr := by
  intro hd
  obtain ⟨p,hne,hp,hgpio⟩ := shared_of_overlapped h
  have hone := (hd ⟨false,false,addr,0⟩ (fun _ => ⟨0,true,false⟩) rfl).1 p .gpio
  simp only [periph_bus_wrap_psel] at hone
  exact hne (hone hp hgpio)

/-- The bus decodes an address as documented exactly outside the two blocks
that the GPIO range shares with its neighbours. -/
theorem decodesAsDocumented_iff (addr : BitVec 32) :
    DecodesAsDocumented addr ↔ ¬Overlapped addr := by
  constructor
  · exact fun hd ho => not_decodesAsDocumented_of_overlapped ho hd
  · rintro hn r responses rfl
    refine ⟨fun p q => ?_,fun p hp => ⟨fun q => ?_,?_⟩⟩
    · simp only [periph_bus_wrap_psel]
      exact range_unique hn
    · simp only [periph_bus_wrap_psel]
      constructor
      · exact fun hq => range_unique hn hq (range_of_documented hp)
      · rintro rfl
        exact range_of_documented hp
    · exact periph_bus_wrap_response r responses (range_of_documented hp)
        (fun q hq => range_unique hn hq (range_of_documented hp))

/-- A write to the SoC control block also selects the GPIO and the uDMA, so
it is issued to three peripherals. -/
theorem soc_ctrl_write_shared :
    ¬DecodesAsDocumented 0x1A104000#32 ∧
      let bus := periph_bus_wrap ⟨true,true,0x1A104000#32,1⟩ (fun _ => ⟨0,true,false⟩)
      (bus.1 .soc_ctrl).psel=true ∧ (bus.1 .gpio).psel=true ∧ (bus.1 .udma).psel=true := by
  refine ⟨not_decodesAsDocumented_of_overlapped (by decide),?_⟩
  simp only [periph_bus_wrap_psel]
  decide

end Pulpissimo.Apb.PeriphBus
