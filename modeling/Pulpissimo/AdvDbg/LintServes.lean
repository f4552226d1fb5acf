import Mathlib.Data.BitVec
import Pulpissimo.AdvDbg.LintRead
import Pulpissimo.AdvDbg.LintWrite

/-!
# What bursts of the debug unit access

A burst is right if it makes one access of its size for every word, at
consecutive addresses, and the words on the line are those in the byte lanes of
the accesses. It is right exactly if the bus is wide enough for a word and the
command is not the one whose size has a wrong entry in a table. A burst that is
cut short makes one more access if the cut comes with the last bit of a word.
-/

namespace Pulpissimo.AdvDbg.LintServes

open Pulpissimo.Machine Pulpissimo.SerialBits Pulpissimo.AdvDbg.LintModule
  Pulpissimo.AdvDbg.LintBurst
open Pulpissimo.AdvDbg.LintRead (wordLine)
open Pulpissimo.AdvDbg.LintBiu (Width be_dec lanes swapped_data_i swapped_data_out)

variable {w : Width}

/-- The first byte lane of a word at an address. -/
def lane (w : Width) (size : ℕ) (address : BitVec 32) : ℕ := address.toNat%w.bytes/size*size

/-- An access of a size: the lanes of a word at its address are enabled and no others. -/
structure Sized (size : ℕ) (a : Access w) : Prop where
  /-- The bus has as many lanes. -/
  fits : size≤w.bytes
  /-- Those of the word are enabled. -/
  enables : a.enables.toNat=(2^size-1)*2^lane w size a.address

/-- What an access carries of a bus word. -/
def carried (size : ℕ) (a : Access w) (v : BitVec w.bits) : BitVec (8*size) :=
  v.extractLsb' (8*lane w size a.address) (8*size)

/-- Addresses of the words of a burst. -/
def places (size : ℕ) (address : BitVec 32) (n : ℕ) : List (BitVec 32) :=
  (List.range n).map fun j => address+BitVec.ofNat 32 (j*size)

/-- A read burst accesses its words and sends them behind the ready bit, and their checksum
behind them. -/
structure Reads (s : System w) (r : LintRead.Run w) : Prop where
  /-- One access for every word, in order. -/
  places : (log s r.cycles).map Access.address=
    places (wordBytes (operation_in s.regs)) (address_data_in s.regs) (count_data_in s.regs).toNat
  /-- They are reads of the size of a word. -/
  sized : ∀ a ∈ log s r.cycles,Sized (wordBytes (operation_in s.regs)) a ∧ a.write=false
  /-- The line carries what they have read. -/
  line : output (after System.step s r.head) r.body=List.replicate r.waits.length false++true::
    ((log s r.cycles).flatMap (fun a => bits (carried (wordBytes (operation_in s.regs)) a a.rdata))++
      bits (crc32 ((log s r.cycles).flatMap fun a =>
        bits (carried (wordBytes (operation_in s.regs)) a a.rdata))))

/-- A write burst accesses its words with what was shifted in, and tells whether the checksum that
was sent is theirs. -/
structure Writes (s : System w) (r : LintWrite.Run w)
    (words : List (BitVec (8*wordBytes (operation_in s.regs)))) : Prop where
  /-- One access for every word, in order. -/
  places : (log s r.cycles).map Access.address=
    places (wordBytes (operation_in s.regs)) (address_data_in s.regs) (count_data_in s.regs).toNat
  /-- They are writes of the size of a word. -/
  sized : ∀ a ∈ log s r.cycles,Sized (wordBytes (operation_in s.regs)) a ∧ a.write=true
  /-- They carry the words. -/
  carries : (log s r.cycles).map (fun a => carried (wordBytes (operation_in s.regs)) a a.data)=words
  /-- The match bit. -/
  compares : ∀ sent : BitVec 32,LintWrite.tdis r.checksum=bits sent →
    (after System.step s r.sent).tdo r.result=(sent==crc32 (words.flatMap bits))

/-- The bus is as wide as a word of the command, and it is not the read of double words, which
the table of the sizes has as one of words. -/
def Fits (w : Width) (operation : BitVec 4) : Prop :=
  wordBytes operation≤w.bytes ∧ operation≠DBG_LINT_CMD_BREAD64

section Lanes

variable {operation : BitVec 4} {address : BitVec 32} {size : ℕ}

theorem wordBytes_cases (operation : BitVec 4) : wordBytes operation=1 ∨ wordBytes operation=2 ∨
    wordBytes operation=4 ∨ wordBytes operation=8 := by
  revert operation
  decide

variable (address) in
/-- The lanes of a word are lanes of the bus. -/
theorem lane_le (hsize : size=1 ∨ size=2 ∨ size=4 ∨ size=8) (hfits : size≤w.bytes) :
    lane w size address+size≤w.bytes := by
  unfold lane
  cases w
  · have hmod : address.toNat%Width.w32.bytes<4 := Nat.mod_lt _ (by decide)
    change size≤4 at hfits
    change _≤4
    generalize address.toNat%Width.w32.bytes=m at *
    rcases hsize with rfl | rfl | rfl | rfl <;> omega
  · have hmod : address.toNat%Width.w64.bytes<8 := Nat.mod_lt _ (by decide)
    change size≤8 at hfits
    change _≤8
    generalize address.toNat%Width.w64.bytes=m at *
    rcases hsize with rfl | rfl | rfl | rfl <;> omega

theorem dvd_lane (w : Width) (size : ℕ) (address : BitVec 32) : size ∣ lane w size address :=
  Nat.dvd_mul_left _ _

/-- The byte enables of a size that fits. -/
theorem be_dec_eq (hsize : size=1 ∨ size=2 ∨ size=4 ∨ size=8) (hfits : size≤w.bytes) :
    be_dec w (BitVec.ofNat 4 size) address=
      BitVec.ofNat w.bytes (2^size-1) <<< lane w size address := by
  have hbits : ∀ i k,(address.extractLsb' i k).toNat=address.toNat/2^i%2^k := fun i k => by
    rw [BitVec.extractLsb'_toNat,Nat.shiftRight_eq_div_pow]
  unfold lane
  cases w with
  | w32 =>
    rcases hsize with rfl | rfl | rfl | rfl
    · change 1#4 <<< (address.extractLsb' 0 2).toNat=1#4 <<< (address.toNat%4/1*1)
      rw [hbits]
      exact congrArg (1#4 <<< ·) (by omega)
    · change 3#4 <<< (2*(address.extractLsb' 1 1).toNat)=3#4 <<< (address.toNat%4/2*2)
      rw [hbits]
      exact congrArg (3#4 <<< ·) (by omega)
    · change 15#4=15#4 <<< (address.toNat%4/4*4)
      have hzero : address.toNat%4/4*4=0 := by omega
      rw [hzero]
      rfl
    · exact absurd hfits (by decide)
  | w64 =>
    rcases hsize with rfl | rfl | rfl | rfl
    · change 1#8 <<< (address.extractLsb' 0 3).toNat=1#8 <<< (address.toNat%8/1*1)
      rw [hbits]
      exact congrArg (1#8 <<< ·) (by omega)
    · change 3#8 <<< (2*(address.extractLsb' 1 2).toNat)=3#8 <<< (address.toNat%8/2*2)
      rw [hbits]
      exact congrArg (3#8 <<< ·) (by omega)
    · change 15#8 <<< (4*(address.extractLsb' 2 1).toNat)=15#8 <<< (address.toNat%8/4*4)
      rw [hbits]
      exact congrArg (15#8 <<< ·) (by omega)
    · change 255#8=255#8 <<< (address.toNat%8/8*8)
      have hzero : address.toNat%8/8*8=0 := by omega
      rw [hzero]
      rfl

/-- The tables of the bus unit know all of them but those of a whole double word. -/
theorem lanes_ones (w : Width) : ∀ size ∈ [1,2,4,8],∀ l<8,size ∣ l → l+size≤w.bytes →
    (BitVec.ofNat w.bytes (2^size-1) <<< l).toNat=(2^size-1)*2^l ∧
      (lanes (BitVec.ofNat w.bytes (2^size-1) <<< l).toNat=some (l,size) ∨
        w.bytes=8 ∧ size=8 ∧ l=0 ∧
          lanes (BitVec.ofNat w.bytes (2^size-1) <<< l).toNat=none) := by
  cases w <;> decide

variable (address) in
/-- Byte enables and data paths of a size that fits. -/
theorem be_dec_spec (hsize : size=1 ∨ size=2 ∨ size=4 ∨ size=8) (hfits : size≤w.bytes) :
    (be_dec w (BitVec.ofNat 4 size) address).toNat=(2^size-1)*2^lane w size address ∧
    (∀ data : BitVec 64,swapped_data_i w (be_dec w (BitVec.ofNat 4 size) address) data=
      ((data >>> (64-8*size)) <<< (8*lane w size address)).setWidth w.bits) ∧
    ∀ rdata : BitVec w.bits,swapped_data_out w (be_dec w (BitVec.ofNat 4 size) address) rdata=
      rdata >>> (8*lane w size address) := by
  have hle := lane_le address hsize hfits
  have hw : w.bytes≤8 := by cases w <;> decide
  have hpos : 0 < size := by omega
  have hmem : size ∈ [1,2,4,8] := by simpa using hsize
  rcases lanes_ones w size hmem (lane w size address) (by omega) (dvd_lane w size address) hle with
    ⟨hval,hlanes⟩
  rw [←be_dec_eq hsize hfits] at hval hlanes
  generalize be_dec w (BitVec.ofNat 4 size) address=be at *
  refine ⟨hval,?_,?_⟩
  · intro data
    unfold swapped_data_i
    rcases hlanes with hsome | ⟨hbytes,hsize',hlane,hnone⟩
    · rw [hsome]
    · rw [hnone,hlane,hsize']
      cases w
      · exact absurd hbytes (by decide)
      · change data=((data >>> 0) <<< 0).setWidth 64
        rw [BitVec.ushiftRight_zero,BitVec.shiftLeft_zero,BitVec.setWidth_eq]
  · intro rdata
    unfold swapped_data_out
    rcases hlanes with hsome | ⟨-,-,hlane,hnone⟩
    · rw [hsome]
    · rw [hnone,hlane]
      rfl

/-- What a read brings to the line is what it carries. -/
theorem wordLine_eq {a : Access w} (hop : burst_read operation=true)
    (hfits : Fits w operation) (hcoded : Coded operation a) :
    wordLine operation a.answer=bits (carried (wordBytes operation) a a.rdata) := by
  have hle := lane_le a.address (wordBytes_cases operation) hfits.1
  have hspec := (be_dec_spec a.address (wordBytes_cases operation) hfits.1).2.2
  unfold wordLine bits carried
  rw [wordBits_eq (Or.inl hop)]
  refine List.map_congr_left fun k hk => ?_
  have hlt : k<8*wordBytes operation := List.mem_range.mp hk
  have hword : wordBytes operation≤8 := by
    rcases wordBytes_cases operation with h | h | h | h <;> omega
  unfold Access.answer
  rw [hcoded.1,word_size_bytes_eq (Or.inl hop) hfits.2,hspec,BitVec.getLsbD_setWidth,
    BitVec.getLsbD_ushiftRight,BitVec.getLsbD_extractLsb',decide_eq_true hlt,
    decide_eq_true (show k<64 by omega)]

/-- A write carries the word that was at the top of the input shift register. -/
theorem carried_eq {a : Access w} {word : BitVec (8*wordBytes operation)}
    (hop : burst_write operation=true) (hfits : Fits w operation) (hcoded : Coded operation a)
    (hholds : LintWrite.Holds a word) : carried (wordBytes operation) a a.data=word := by
  have hle := lane_le a.address (wordBytes_cases operation) hfits.1
  have hspec := (be_dec_spec a.address (wordBytes_cases operation) hfits.1).2.1
  rcases hholds with ⟨data,hdata,hword⟩
  rw [hcoded.1,word_size_bytes_eq (Or.inr hop) hfits.2,hspec] at hdata
  rw [←hword,carried,hdata]
  have hw : w.bits=8*w.bytes := rfl
  have hw8 : w.bytes≤8 := by cases w <;> decide
  apply BitVec.eq_of_getLsbD_eq
  intro i hi
  generalize lane w (wordBytes operation) a.address=l at *
  have hplace : 8*l+i<w.bits := by omega
  have hwide : 8*l+i<64 := by omega
  have hback : 64-8*wordBytes operation+(8*l+i-8*l)=64-8*wordBytes operation+i := by omega
  rw [BitVec.getLsbD_extractLsb',BitVec.getLsbD_extractLsb',BitVec.getLsbD_setWidth,
    BitVec.getLsbD_shiftLeft,BitVec.getLsbD_ushiftRight,decide_eq_true hplace,
    decide_eq_true hwide,decide_eq_false (show ¬8*l+i<8*l by omega),hback]
  rfl

/-- Accesses of a command that fits have its size. -/
theorem sized_of_coded {a : Access w}
    (hop : burst_read operation=true ∨ burst_write operation=true) (hfits : Fits w operation)
    (hcoded : Coded operation a) : Sized (wordBytes operation) a := by
  refine ⟨hfits.1,?_⟩
  rw [hcoded.1,word_size_bytes_eq hop hfits.2]
  exact (be_dec_spec _ (wordBytes_cases operation) hfits.1).1

/-- An access that has the size of its command comes from one that fits. -/
theorem fits_of_sized {a : Access w} (hcoded : Coded operation a)
    (hsized : Sized (wordBytes operation) a) : Fits w operation := by
  refine ⟨hsized.fits,?_⟩
  rintro rfl
  have hwide : 8≤w.bytes := hsized.fits
  cases w with
  | w32 => exact absurd hwide (by decide)
  | w64 =>
    have hones : a.enables.toNat=255*2^(a.address.toNat%8/8*8) := hsized.enables
    have hzero : a.address.toNat%8/8*8=0 := by omega
    have hcode : a.enables=15#8 <<< (4*(a.address.extractLsb' 2 1).toNat) := hcoded.1
    rw [hzero,hcode] at hones
    generalize a.address.extractLsb' 2 1=b at hones
    revert b
    decide

/-- Addresses of a command that fits are those of its words. -/
theorem places_eq (hop : burst_read operation=true ∨ burst_write operation=true)
    (hfits : Fits w operation) (n : ℕ) :
    addresses operation address n=places (wordBytes operation) address n := by
  have hsize : (word_size_bytes operation).toNat=wordBytes operation := by
    rw [word_size_bytes_eq hop hfits.2,BitVec.toNat_ofNat]
    rcases wordBytes_cases operation with h | h | h | h <;> rw [h]
  unfold addresses places
  rw [hsize]

end Lanes

/-- A burst makes at least one access. -/
theorem exists_access {s : System w} {cs : List (Cycle w)} {operation : BitVec 4}
    {address : BitVec 32} (h : Commands s.regs) (haddr : (log s cs).map Access.address=
      addresses operation address (count_data_in s.regs).toNat) : ∃ a, a ∈ log s cs := by
  refine List.exists_mem_of_ne_nil _ fun hnil => h.words (BitVec.eq_of_toNat_eq ?_)
  have hlen := congrArg List.length haddr
  rw [hnil,List.map_nil,addresses,List.length_map,List.length_range] at hlen
  exact hlen.symm

/-- A read burst is right exactly if its command fits. -/
theorem reads_iff {s : System w} {r : LintRead.Run w} (h : r.Complete s) :
    Reads s r ↔ Fits w (operation_in s.regs) := by
  rcases h.run with ⟨haddr,hcoded,hline⟩
  constructor
  · intro hreads
    rcases exists_access h.command haddr with ⟨a,ha⟩
    exact fits_of_sized (hcoded a ha) (hreads.sized a ha).1
  · intro hfits
    have hwords : (log s r.cycles).flatMap (fun a => wordLine (operation_in s.regs) a.answer)=
        (log s r.cycles).flatMap fun a =>
          bits (carried (wordBytes (operation_in s.regs)) a a.rdata) :=
      List.flatMap_congr fun a ha => wordLine_eq h.read hfits (hcoded a ha)
    refine ⟨haddr.trans (places_eq (Or.inl h.read) hfits _),fun a ha => ?_,?_⟩
    · refine ⟨sized_of_coded (Or.inl h.read) hfits (hcoded a ha),?_⟩
      rw [(hcoded a ha).2,show rd_op (operation_in s.regs)=true from h.read]
      rfl
    · rw [hline,hwords]
      rfl

/-- What holds between two lists place by place makes one the image of the other. -/
theorem map_eq_of_forall₂ {α β : Type*} {P : α → Prop} {R : α → β → Prop} {f : α → β}
    (hR : ∀ a b,P a → R a b → f a=b) {l : List α} {ws : List β} (hP : ∀ a ∈ l,P a)
    (h : List.Forall₂ R l ws) : l.map f=ws := by
  induction h with
  | nil => rfl
  | cons hab _ ih =>
    rw [List.map_cons,hR _ _ (hP _ List.mem_cons_self) hab,
      ih fun a ha => hP a (List.mem_cons_of_mem _ ha)]

/-- So is a write burst. -/
theorem writes_iff {s : System w} {r : LintWrite.Run w}
    {words : List (BitVec (8*wordBytes (operation_in s.regs)))} (h : r.Complete s words) :
    Writes s r words ↔ Fits w (operation_in s.regs) := by
  rcases h.run with ⟨haddr,hcoded,hholds,htdo⟩
  constructor
  · intro hwrites
    rcases exists_access h.command haddr with ⟨a,ha⟩
    exact fits_of_sized (hcoded a ha) (hwrites.sized a ha).1
  · intro hfits
    refine ⟨haddr.trans (places_eq (Or.inr h.write) hfits _),fun a ha => ?_,?_,htdo⟩
    · refine ⟨sized_of_coded (Or.inr h.write) hfits (hcoded a ha),?_⟩
      rw [(hcoded a ha).2,show rd_op (operation_in s.regs)=false from LintWrite.rd_op_write h.write]
      rfl
    · exact map_eq_of_forall₂ (fun a word => carried_eq h.write hfits) hcoded hholds

section Early

/-- States of the scan that moves the words of a burst. -/
def scanning : Fsm → Bool
  | .STATE_Rstatus | .STATE_Rburst | .STATE_Rcrc => true
  | .STATE_Wwait | .STATE_Wburst | .STATE_Wcrc | .STATE_Wmatch => true
  | _ => false

/-- An update during the scan ends the burst: it makes no access, and neither does the idle state
that it leads to. -/
def EndsEarly (s : System w) (c : Cycle w) : Prop :=
  (scanning s.regs.module_state=true → c.update_dr_i=true →
    s.accesses c=[] ∧ (s.step c).regs.module_state=.STATE_idle) ∧
  (s.regs.module_state=.STATE_idle → s.accesses c=[])

/-- No update during the scan comes with the last bit of a word while the bus is ready: of any
word for a write, for a read of one after which at least two are to come. -/
def NotAtWordEnd (s : System w) (c : Cycle w) : Prop :=
  c.update_dr_i=true → c.biu_ready=true → bit_count_max s.regs=true →
    (s.regs.module_state=.STATE_Rburst → read_more s.regs=false) ∧
    s.regs.module_state≠.STATE_Wburst

variable (s : System w) (c : Cycle w)

/-- An update leads from the scan to the idle state. -/
theorem next_of_update (hscan : scanning s.regs.module_state=true) (hu : c.update_dr_i=true) :
    module_next_state s.regs (s.input c)=.STATE_idle := by
  have hin : (s.input c).update_dr_i=true := hu
  unfold module_next_state
  cases hstate : s.regs.module_state <;> rw [hstate] at hscan <;> first
    | exact if_pos hin
    | exact absurd hscan Bool.false_ne_true

/-- Strobes of an update during the scan. -/
theorem strobe_of_update (hscan : scanning s.regs.module_state=true) (hu : c.update_dr_i=true) :
    (s.out c).biu_strobe=true ↔ bit_count_max s.regs=true ∧
      (s.regs.module_state=.STATE_Rburst ∧ read_more s.regs=true ∨
        s.regs.module_state=.STATE_Wburst) := by
  have hnext := next_of_update s c hscan hu
  unfold System.out LintModule.control
  cases hstate : s.regs.module_state <;> rw [hstate] at hscan <;>
    first | exact absurd hscan Bool.false_ne_true | skip
  all_goals simp [hnext]

/-- Accesses of a cycle with a strobe. -/
theorem accesses_eq_nil : s.accesses c=[] ↔ ((s.out c).biu_strobe=true → c.biu_ready=false) := by
  unfold System.accesses
  cases (s.out c).biu_strobe <;> cases c.biu_ready <;> simp

/-- An update during the scan makes no access exactly if it does not come with the end of a
word. -/
theorem endsEarly_iff : EndsEarly s c ↔ NotAtWordEnd s c := by
  have hidle : s.regs.module_state=.STATE_idle → s.accesses c=[] := by
    intro hstate
    refine (accesses_eq_nil s c).mpr fun hstrobe => ?_
    unfold System.out LintModule.control at hstrobe
    rw [hstate] at hstrobe
    exact absurd hstrobe Bool.false_ne_true
  constructor
  · intro h hu hready hmax
    have hnone : scanning s.regs.module_state=true → (s.out c).biu_strobe=false := fun hscan =>
      Bool.eq_false_iff.mpr fun hstrobe =>
        absurd ((accesses_eq_nil s c).mp (h.1 hscan hu).1 hstrobe) (by rw [hready]; decide)
    refine ⟨fun hstate => Bool.eq_false_iff.mpr fun hmore => ?_,fun hstate => ?_⟩
    · have hscan : scanning s.regs.module_state=true := by rw [hstate]; rfl
      have hstrobe := (strobe_of_update s c hscan hu).mpr ⟨hmax,Or.inl ⟨hstate,hmore⟩⟩
      exact absurd hstrobe (Bool.eq_false_iff.mp (hnone hscan))
    · have hscan : scanning s.regs.module_state=true := by rw [hstate]; rfl
      have hstrobe := (strobe_of_update s c hscan hu).mpr ⟨hmax,Or.inr hstate⟩
      exact absurd hstrobe (Bool.eq_false_iff.mp (hnone hscan))
  · intro h
    refine ⟨fun hscan hu => ⟨(accesses_eq_nil s c).mpr fun hstrobe => ?_,
      next_of_update s c hscan hu⟩,hidle⟩
    rcases (strobe_of_update s c hscan hu).mp hstrobe with ⟨hmax,hwhere⟩
    refine Bool.eq_false_iff.mpr fun hready => ?_
    rcases h hu hready hmax with ⟨hread,hwrite⟩
    rcases hwhere with ⟨hstate,hmore⟩ | hstate
    · exact absurd hmore (Bool.eq_false_iff.mp (hread hstate))
    · exact hwrite hstate

end Early

/-- Complete bursts are right exactly if their command fits the bus and is not the one of the
wrong entry, and early updates end bursts exactly if they do not come with the last bit of a
word. -/
theorem bursts_exactly :
    (∀ (s : System w) (r : LintRead.Run w), r.Complete s → (Reads s r ↔
      Fits w (operation_in s.regs))) ∧
    (∀ (s : System w) (r : LintWrite.Run w)
      (words : List (BitVec (8*wordBytes (operation_in s.regs)))), r.Complete s words →
      (Writes s r words ↔ Fits w (operation_in s.regs))) ∧
    ∀ (s : System w) (cs : List (Cycle w)),
      Meets System.step EndsEarly s cs ↔ Meets System.step NotAtWordEnd s cs :=
  ⟨fun _ _ => reads_iff,fun _ _ _ => writes_iff,fun _ _ => meets_congr endsEarly_iff⟩

section Runs

/-- A cycle of a ready bus with given bits of the TAP. -/
def ready (w : Width) (tdi_i capture_dr_i shift_dr_i update_dr_i : Bool) (rdata : BitVec w.bits) :
    Cycle w :=
  ⟨tdi_i,capture_dr_i,shift_dr_i,update_dr_i,true,true,true,0#64,rdata⟩

/-- The module after reset with a command in its input register. -/
def commanded (w : Width) (command : BitVec 64) : System w :=
  ⟨{ reset with data_register_i := command },0#64⟩

/-- A read burst of a ready bus: `bits` are shifted and every access is answered with `rdata`. -/
def readRun (w : Width) (bits : ℕ) (rdata : BitVec w.bits) : LintRead.Run w where
  update := ready w false false false true rdata
  first := ready w false false false false rdata
  gap := []
  capture := ready w false true false false rdata
  waits := []
  ready := ready w false false true false rdata
  data := List.replicate bits (ready w false false true false rdata)
  checksum := List.replicate 32 (ready w false false true false rdata)

/-- A write burst of a ready bus. -/
def writeRun (w : Width) (line checksum : List Bool) : LintWrite.Run w where
  update := ready w false false false true 0
  gap := []
  capture := ready w false true false false 0
  zeros := [ready w false false true false 0]
  start := ready w true false true false 0
  data := line.map fun b => ready w b false true false 0
  checksum := checksum.map fun b => ready w b false true false 0
  result := ready w false false true false 0

/-- A run of a ready bus is complete if its command asks for as many bits. -/
theorem readRun_complete {command : BitVec 64} {bits : ℕ} {rdata : BitVec w.bits}
    (hcommand : Commands (commanded w command).regs)
    (hread : burst_read (operation_in (commanded w command).regs)=true)
    (hbits : bits=(count_data_in (commanded w command).regs).toNat*
      (8*wordBytes (operation_in (commanded w command).regs))) :
    (readRun w bits rdata).Complete (commanded w command) := by
  have hbody : ∀ c ∈ (readRun w bits rdata).body,c=ready w false false true false rdata := by
    intro c hc
    rcases List.mem_cons.mp hc with hc | hc
    · exact hc
    · rcases List.mem_append.mp hc with hc | hc <;> exact List.eq_of_mem_replicate hc
  refine ⟨hcommand,hread,⟨rfl,rfl,rfl⟩,⟨rfl,rfl,rfl⟩,fun c hc => absurd hc List.not_mem_nil,
    ⟨rfl,rfl,rfl,rfl⟩,fun c hc => by rw [hbody c hc]; exact ⟨rfl,rfl,rfl,rfl⟩,
    fun c hc => absurd hc List.not_mem_nil,rfl,?_,List.length_replicate,inTime_of_ready ?_⟩
  · rw [←hbits]
    exact List.length_replicate
  · intro c hc
    rcases List.mem_append.mp hc with hc | hc
    · rcases List.mem_cons.mp hc with rfl | hc
      · rfl
      · rcases List.mem_cons.mp hc with rfl | hc
        · rfl
        · rw [List.mem_singleton.mp hc]
          rfl
    · rw [hbody c hc]
      rfl

/-- A byte is read and a byte is written, and an update in the middle of one ends a burst. -/
theorem bursts_exactly_bytes :
    Reads (commanded .w32 0x2800000028000800#64) (readRun .w32 8 0x0000A500#32) ∧
    Writes (commanded .w32 0x0800000028000800#64)
      (writeRun .w32 (bits 0xA5#8) (bits (crc32 (bits 0xA5#8)))) [0xA5#8] ∧
    Meets System.step EndsEarly (commanded .w32 0x2800000028000800#64)
      ((readRun .w32 8 0x0000A500#32).head++[ready .w32 false false false true 0#32]) := by
  have hfits : Fits .w32 DBG_LINT_CMD_BREAD8 ∧ Fits .w32 DBG_LINT_CMD_BWRITE8 := by
    refine ⟨⟨?_,?_⟩,?_,?_⟩ <;> decide
  refine ⟨(bursts_exactly.1 _ _ (readRun_complete ⟨rfl,by decide,by decide⟩ (by decide)
    (by decide))).mpr hfits.1,(bursts_exactly.2.1 _ _ _ ⟨⟨rfl,by decide,by decide⟩,by decide,rfl,
    ⟨rfl,rfl,rfl⟩,fun c hc => absurd hc List.not_mem_nil,⟨rfl,rfl,rfl,rfl⟩,?_,
    ⟨⟨rfl,rfl,rfl,rfl⟩,rfl⟩,⟨?_,by decide⟩,⟨?_,rfl⟩,⟨rfl,rfl,rfl,rfl⟩,?_⟩).mpr hfits.2,
    (bursts_exactly.2.2 _ _).mpr ?_⟩
  · intro c hc
    rw [List.mem_singleton.mp hc]
    exact ⟨⟨rfl,rfl,rfl,rfl⟩,rfl⟩
  · intro c hc
    rcases List.mem_map.mp hc with ⟨b,-,rfl⟩
    exact ⟨rfl,rfl,rfl,rfl⟩
  · intro c hc
    rcases List.mem_map.mp hc with ⟨b,-,rfl⟩
    exact ⟨rfl,rfl,rfl,rfl⟩
  · exact inTime_of_ready (by decide)
  · refine ⟨?_,?_,?_,?_,trivial⟩ <;>
      exact fun _ _ _ => ⟨fun hstate => absurd hstate (by decide),by decide⟩

/-- Double words are read by accesses of a word. -/
theorem not_reads_double_words :
    ¬∀ (s : System .w64) (r : LintRead.Run .w64), r.Complete s → Reads s r := by
  intro h
  have hcomplete : (readRun .w64 64 0x0123456789ABCDEF#64).Complete
      (commanded .w64 0x4000000000000800#64) :=
    readRun_complete ⟨rfl,by decide,by decide⟩ (by decide) (by decide)
  exact ((reads_iff hcomplete).mp (h _ _ hcomplete)).2 (by decide)

end Runs

end Pulpissimo.AdvDbg.LintServes
