import Mathlib.Data.BitVec
import Mathlib.Data.List.FinRange
import Pulpissimo.Dv.ElfLoader

/-!
# Preloading of taints

`taintloader.cc` with the initial blocks of `ift_sram` and `ift_boot_rom_hdac` that
call it, for the one taint with which they are built. The strings of hex digits are
kept by address, so a line replaces the string of an earlier line there while both
stay in the list of sections. The modules use the number of the taint to index a
memory that is declared per taint, and so select a bit of the word.
-/

namespace Pulpissimo.Dv.TaintLoader

open Pulpissimo.Machine Pulpissimo.Drain Pulpissimo.Cellift.SramMap

abbrev NumTaints : ℕ := 1

/-- Value of a digit. Other characters end the simulation. -/
def char_to_hex (c : Char) : Option (BitVec 8) :=
  if '0'.toNat ≤ c.toNat ∧ c.toNat ≤ '9'.toNat then some (BitVec.ofNat 8 (c.toNat - '0'.toNat))
  else if 'a'.toNat ≤ c.toNat ∧ c.toNat ≤ 'f'.toNat then some (BitVec.ofNat 8 (c.toNat - 'a'.toNat+10))
  else if 'A'.toNat ≤ c.toNat ∧ c.toNat ≤ 'F'.toNat then some (BitVec.ofNat 8 (c.toNat - 'A'.toNat+10))
  else none

/-- Digit of a string. -/
def digit (s : List Char) (i : ℕ) : BitVec 8 := (s[i]?.bind char_to_hex).getD 0

/-- Two digits make a byte, the upper half first. -/
def byte_val (s : List Char) (byte_offset : ℕ) : BitVec 8 :=
  digit s (2*byte_offset)<<<4 ||| digit s (2*byte_offset+1)

/-- A line of a taint file: taint, address, number of bytes, and two digits for each. -/
structure Line where
  /-- Number of the taint. -/
  taint_id : Fin NumTaints
  /-- Address. -/
  region_offset : ℕ
  /-- Number of bytes. -/
  num_bytes : ℕ
  /-- Digits. -/
  byte_taint_contents : List Char
  /-- They are hex digits. -/
  hex : ∀ c ∈ byte_taint_contents,(char_to_hex c).isSome
  /-- There are two for each byte. -/
  length_eq : byte_taint_contents.length=2*num_bytes
  /-- The bytes lie in the address space. -/
  end_le : region_offset+num_bytes≤2^32

/-- Globals of the loader, by taint. -/
structure Loader where
  /-- Address and size of each section. -/
  taint_sections : Fin NumTaints → List (ℕ×ℕ)
  /-- Digits by address; an address without any has the empty string. -/
  taint_assignments : Fin NumTaints → ℕ → List Char
  /-- Section that is handed out next. -/
  taint_section_index : Fin NumTaints → ℕ

/-- After `init_taint_vectors`, which later calls of it leave as it is. -/
def Loader.empty : Loader := ⟨fun _ => [],fun _ _ => [],fun _ => 0⟩

/-- One line. -/
def read_line (s : Loader) (l : Line) : Loader :=
  { s with
    taint_sections := fun t =>
      if t=l.taint_id then s.taint_sections t++[(l.region_offset,l.num_bytes)]
      else s.taint_sections t
    taint_assignments := fun t a =>
      if t=l.taint_id ∧ a=l.region_offset then l.byte_taint_contents else s.taint_assignments t a }

/-- A file. -/
def read_taints (f : List Line) (s : Loader) : Loader := f.foldl read_line s

/-- `get_taint_section` hands out the next section of a taint, while there is one. -/
def get_taint_section (t : Fin NumTaints) : Cursor Loader (ℕ×ℕ) where
  items := fun s => s.taint_sections t
  pos := fun s => s.taint_section_index t
  advance := fun s => { s with
    taint_section_index := fun u =>
      if u=t then s.taint_section_index u+1 else s.taint_section_index u }
  items_advance := fun _ => rfl
  pos_advance := fun _ => if_pos rfl

/-- Copy of the bytes of a string over the start of a buffer. -/
def read_taint_section (s : List Char) (buffer : ℕ → BitVec 8) : ℕ → BitVec 8 :=
  fun byte_offset => if byte_offset < s.length/2 then byte_val s byte_offset else buffer byte_offset

/-- Taint words by row. A row that does not exist reads as zero. -/
abbrev MemTaints : Type := ℕ → Option (BitVec 32)

/-- Bit of a taint memory. -/
def MemTaints.bit (mem_taints : MemTaints) (r j : ℕ) : Bool := ((mem_taints r).getD 0).getLsbD j

/-- A row that does not exist is made, with zero. -/
def MemTaints.exist (mem_taints : MemTaints) (k : ℕ) : MemTaints := fun r =>
  if r=k then some ((mem_taints r).getD 0) else mem_taints r

/-- Assignment to a row. -/
def MemTaints.assign (mem_taints : MemTaints) (k : ℕ) (v : BitVec 32) : MemTaints := fun r =>
  if r=k then some v else mem_taints r

/-- Assignment to one bit of a word. -/
def assign_bit (v : BitVec 32) (j : ℕ) (b : Bool) : BitVec 32 :=
  if b then v ||| BitVec.twoPow 32 j else v &&& ~~~BitVec.twoPow 32 j

section Words

variable (p : Params) (section_addr : ℕ)

/-- Index into the taint memory, in 64-bit arithmetic and cut to the 32 bits of an index. -/
def index (i : ℕ) : ℕ :=
  ((section_addr+2^64-p.AddrOffset)%2^64/WidthBytes+i)/p.NumBanks%2^32

/-- One pass of the loop over the words: the row is made to exist, also for other banks,
and if the word is of this bank, a bit of the row is merged with it. -/
def taint_word (merge : Bool → Bool → Bool) (taint_id : Fin NumTaints) (word : ℕ → Fin 4 → BitVec 8)
    (mem_taints : MemTaints) (i : ℕ) : MemTaints :=
  let k := index p section_addr i
  let mem_taints := mem_taints.exist k
  if p.IsBank section_addr i then
    mem_taints.assign k (assign_bit ((mem_taints k).getD 0) taint_id
      (merge (mem_taints.bit k taint_id) ((word i 0).getLsbD 0)))
  else mem_taints

end Words

/-- Taint memory and buffer of an instance in its initial block. -/
structure Contents where
  /-- Words by row. -/
  mem_taints : MemTaints
  /-- Buffer. -/
  buffer : ℕ → BitVec 8

/-- One section. -/
def load_section (merge : Bool → Bool → Bool) (p : Params) (assignments : ℕ → List Char)
    (taint_id : Fin NumTaints) (m : Contents) (x : ℕ×ℕ) : Contents :=
  let buffer := read_taint_section (assignments x.1) m.buffer
  ⟨(List.range (num_words x.2)).foldl
    (taint_word p x.1 merge taint_id (ElfLoader.word buffer)) m.mem_taints,buffer⟩

/-- The sections of one taint. -/
def load_taint (merge : Bool → Bool → Bool) (p : Params) (m : Contents×Loader)
    (taint_id : Fin NumTaints) : Contents×Loader :=
  drain (get_taint_section taint_id).source
    (load_section merge p (m.2.taint_assignments taint_id) taint_id) m.1 m.2

/-- The initial block of an instance. -/
def preload (merge : Bool → Bool → Bool) (p : Params) (f : List Line) (s : Loader) :
    Contents×Loader :=
  (List.finRange NumTaints).foldl (load_taint merge p)
    (⟨fun _ => none,fun _ => 0⟩,read_taints f s)

/-- The instances with a taint memory. -/
inductive Memory
  | sram (c : Sram)
  | boot_rom
  deriving DecidableEq

/-- Parameters of each of them. -/
def Memory.params : Memory → Params
  | .sram c => c.params
  | .boot_rom => ⟨1,0,0x1A000000⟩

/-- The memories add a taint to those they have; the ROM replaces them. -/
def Memory.merge : Memory → Bool → Bool → Bool
  | .sram _ => fun old new => old || new
  | .boot_rom => fun _ new => new

/-- A taint file for the memories and one for the ROM. -/
structure Files where
  /-- File of the memories. -/
  sram : List Line
  /-- File of the ROM. -/
  boot_rom : List Line

/-- File that an instance reads. -/
def Files.of (fs : Files) : Memory → List Line
  | .sram _ => fs.sram
  | .boot_rom => fs.boot_rom

/-- The loader and the taint memories while the instances start. -/
structure Boot where
  /-- Loader. -/
  loader : Loader
  /-- Taint memories. -/
  mem_taints : Memory → MemTaints

/-- Before the first instance. -/
def Boot.empty : Boot := ⟨Loader.empty,fun _ _ => none⟩

/-- The initial block of one instance. -/
def Boot.step (fs : Files) (s : Boot) (c : Memory) : Boot :=
  ⟨(preload c.merge c.params (fs.of c) s.loader).2,fun d =>
    if d=c then (preload c.merge c.params (fs.of c) s.loader).1.mem_taints else s.mem_taints d⟩

/-- The simulator starts the instances in some order, and each of them. -/
structure Order where
  /-- Order of the initial blocks. -/
  memories : List Memory
  /-- Every instance starts. -/
  all : ∀ c,c ∈ memories

/-- Taint memories after all initial blocks. -/
def initialise (order : Order) (fs : Files) : Memory → MemTaints :=
  (after (Boot.step fs) Boot.empty order.memories).mem_taints

section Steps

theorem getLsbD_assign_bit (v : BitVec 32) {k : ℕ} (hk : k<32) (b : Bool) (j : ℕ) :
    (assign_bit v k b).getLsbD j=if j=k then b else v.getLsbD j := by
  unfold assign_bit
  cases b with
  | true =>
    rw [if_pos rfl,BitVec.getLsbD_or,BitVec.getLsbD_twoPow]
    by_cases hj : j=k
    · rw [if_pos hj,hj,decide_eq_true hk,decide_eq_true rfl,Bool.and_self,Bool.or_true]
    · have hkj : ¬k=j := fun h => hj h.symm
      rw [if_neg hj,decide_eq_false hkj,Bool.and_false,Bool.or_false]
  | false =>
    rw [if_neg Bool.false_ne_true,BitVec.getLsbD_and,BitVec.getLsbD_not,BitVec.getLsbD_twoPow]
    by_cases hj : j=k
    · rw [if_pos hj,hj,decide_eq_true hk,decide_eq_true rfl,Bool.and_self,Bool.not_true,
        Bool.and_false,Bool.and_false]
    · have hkj : ¬k=j := fun h => hj h.symm
      rw [if_neg hj,decide_eq_false hkj,Bool.and_false,Bool.not_false,Bool.and_true]
      by_cases hlt : j<32
      · rw [decide_eq_true hlt,Bool.and_true]
      · rw [BitVec.getLsbD_of_ge v j (Nat.le_of_not_lt hlt),Bool.false_and]

variable {p : Params} {section_addr : ℕ} {merge : Bool → Bool → Bool} {t : Fin NumTaints}
  {word : ℕ → Fin 4 → BitVec 8}

/-- The index of a word of this bank is its row. -/
theorem index_eq_row {len i : ℕ} (hend : section_addr+len≤2^32) (hi : i<num_words len)
    (hle : p.AddrOffset ≤ section_addr) : index p section_addr i=p.row section_addr i := by
  have hsub : (section_addr+2^64-p.AddrOffset)%2^64=section_addr-p.AddrOffset := by omega
  have hsmall : (section_addr-p.AddrOffset)/WidthBytes+i<2^32 := by
    simp only [num_words,WidthBytes] at *
    omega
  have hdiv : ((section_addr-p.AddrOffset)/WidthBytes+i)/p.NumBanks<2^32 :=
    Nat.lt_of_le_of_lt (Nat.div_le_self _ _) hsmall
  unfold index Params.row Params.word_index
  rw [hsub,Nat.mod_eq_of_lt hdiv]

/-- To make a row exist changes no bit. -/
theorem bit_exist (mem_taints : MemTaints) (k r j : ℕ) :
    (mem_taints.exist k).bit r j=mem_taints.bit r j := by
  unfold MemTaints.bit MemTaints.exist
  by_cases hr : r=k
  · rw [if_pos hr,Option.getD_some]
  · rw [if_neg hr]

theorem bit_assign (mem_taints : MemTaints) (k : ℕ) (v : BitVec 32) (r j : ℕ) :
    (mem_taints.assign k v).bit r j=if r=k then v.getLsbD j else mem_taints.bit r j := by
  unfold MemTaints.bit MemTaints.assign
  by_cases hr : r=k
  · rw [if_pos hr,if_pos hr,Option.getD_some]
  · rw [if_neg hr,if_neg hr]

/-- A bit after one pass of the loop. -/
theorem bit_taint_word (mem_taints : MemTaints) {len i : ℕ} (hend : section_addr+len≤2^32)
    (hi : i<num_words len) (r j : ℕ) :
    (taint_word p section_addr merge t word mem_taints i).bit r j=
      if p.IsBank section_addr i ∧ r=p.row section_addr i then
        if j=t then merge (mem_taints.bit r t) ((word i 0).getLsbD 0) else mem_taints.bit r j
      else mem_taints.bit r j := by
  have ht : (t : ℕ)<32 := Nat.lt_trans t.isLt (by decide)
  unfold taint_word
  by_cases hbank : p.IsBank section_addr i
  · have hindex := index_eq_row hend hi hbank.1
    rw [if_pos hbank,hindex,bit_assign,bit_exist,getLsbD_assign_bit _ ht,bit_exist]
    by_cases hr : r=p.row section_addr i
    · have hold : (((mem_taints.exist (p.row section_addr i)) (p.row section_addr i)).getD 0).getLsbD
          j=mem_taints.bit r j := by
        rw [hr]
        exact bit_exist mem_taints (p.row section_addr i) (p.row section_addr i) j
      have hhit : p.IsBank section_addr i ∧ r=p.row section_addr i := ⟨hbank,hr⟩
      rw [if_pos hr,if_pos hhit,hold,←hr]
    · have hmiss : ¬(p.IsBank section_addr i ∧ r=p.row section_addr i) := fun h => hr h.2
      rw [if_neg hr,if_neg hmiss]
  · rw [if_neg hbank,if_neg fun h => hbank h.1]
    exact bit_exist mem_taints (index p section_addr i) r j

/-- The bit of the taint, after one section. -/
theorem bit_load_section (merge : Bool → Bool → Bool) (hb : p.BankId<p.NumBanks)
    (assignments : ℕ → List Char) (m : Contents) {x : ℕ×ℕ} (hend : x.1+x.2≤2^32) (r : ℕ) :
    (load_section merge p assignments t m x).mem_taints.bit r t=
      if p.Hits x.1 (num_words x.2) r then
        merge (m.mem_taints.bit r t) ((ElfLoader.word
          (load_section merge p assignments t m x).buffer (p.word_of x.1 r) 0).getLsbD 0)
      else m.mem_taints.bit r t :=
  Params.foldl_words hb (fun mem_taints : MemTaints => mem_taints.bit r t)
    (fun old i => merge old
      ((ElfLoader.word (load_section merge p assignments t m x).buffer i 0).getLsbD 0))
    (fun mem_taints i hi => by
      rw [bit_taint_word mem_taints hend hi,if_pos rfl]
      rfl) m.mem_taints

/-- Other bits of a word are left. -/
theorem other_load_section (assignments : ℕ → List Char) (m : Contents) {x : ℕ×ℕ}
    (hend : x.1+x.2≤2^32) {r j : ℕ} (hj : j≠t) :
    (load_section merge p assignments t m x).mem_taints.bit r j=m.mem_taints.bit r j := by
  show MemTaints.bit ((List.range (num_words x.2)).foldl _ m.mem_taints) r j=_
  have hstep : ∀ i<num_words x.2,∀ mem_taints : MemTaints,
      (taint_word p x.1 merge t (ElfLoader.word
        (load_section merge p assignments t m x).buffer) mem_taints i).bit r j=
          mem_taints.bit r j := by
    intro i hi mem_taints
    rw [bit_taint_word mem_taints hend hi,if_neg hj,ite_self]
  generalize hn : num_words x.2=n at hstep
  clear hn
  induction n with
  | zero => rfl
  | succ n ih =>
    rw [List.range_succ,List.foldl_append,List.foldl_cons,List.foldl_nil]
    exact (hstep n (Nat.lt_succ_self n) _).trans (ih fun i hi => hstep i (Nat.lt_succ_of_lt hi))

end Steps

section Files

/-- The last line at an address, whose digits the address has. -/
def inForce (f : List Line) (a : ℕ) : Option Line := f.reverse.find? fun l => l.region_offset=a

/-- Digits of an address. -/
def digits (f : List Line) (a : ℕ) : List Char :=
  ((inForce f a).map Line.byte_taint_contents).getD []

theorem inForce_concat (f : List Line) (l : Line) (a : ℕ) :
    inForce (f++[l]) a=if l.region_offset=a then some l else inForce f a := by
  unfold inForce
  rw [List.reverse_append,List.reverse_singleton,List.singleton_append,List.find?_cons]
  by_cases h : l.region_offset=a
  · rw [decide_eq_true h,if_pos h]
  · rw [decide_eq_false h,if_neg h]

/-- Every line has a last one at its address. -/
theorem exists_inForce {f : List Line} {l : Line} (hl : l ∈ f) :
    ∃ k ∈ f,inForce f l.region_offset=some k ∧ k.region_offset=l.region_offset := by
  have hsome : (inForce f l.region_offset).isSome :=
    List.find?_isSome.mpr ⟨l,List.mem_reverse.mpr hl,decide_eq_true rfl⟩
  rcases Option.isSome_iff_exists.mp hsome with ⟨k,hk⟩
  have hfound : decide (k.region_offset=l.region_offset)=true :=
    List.find?_some (p:=fun k : Line => decide (k.region_offset=l.region_offset)) hk
  exact ⟨k,List.mem_reverse.mp (List.mem_of_find?_eq_some hk),hk,of_decide_eq_true hfound⟩

/-- What a file adds to the loader. -/
theorem read_taints_eq (f : List Line) (s : Loader) (t : Fin NumTaints) :
    (read_taints f s).taint_sections t=
        s.taint_sections t++f.map (fun l => (l.region_offset,l.num_bytes)) ∧
      (read_taints f s).taint_section_index=s.taint_section_index ∧
        ∀ a k,inForce f a=some k →
          (read_taints f s).taint_assignments t a=k.byte_taint_contents := by
  unfold read_taints
  induction f using List.reverseRecOn with
  | nil => exact ⟨(List.append_nil _).symm,rfl,fun a k h => by cases h⟩
  | append_singleton f l ih =>
    obtain ⟨hsections,hindex,hassign⟩ := ih
    have ht : t=l.taint_id := Subsingleton.elim t l.taint_id
    rw [List.foldl_append,List.foldl_cons,List.foldl_nil]
    refine ⟨?_,hindex,fun a k h => ?_⟩
    · show (if t=l.taint_id then _++_ else _)=_
      rw [if_pos ht,hsections,List.map_append,List.append_assoc]
      rfl
    · show (if t=l.taint_id ∧ a=l.region_offset then _ else _)=_
      rw [inForce_concat] at h
      by_cases ha : l.region_offset=a
      · rw [if_pos ha] at h
        rw [if_pos ⟨ht,ha.symm⟩,Option.some_inj.mp h]
      · rw [if_neg ha] at h
        rw [if_neg fun hta => ha hta.2.symm]
        exact hassign a k h

/-- All sections were handed out. -/
def Loader.Ready (s : Loader) : Prop :=
  ∀ t,s.taint_section_index t=(s.taint_sections t).length

/-- The sections of a file at a memory, with digits by address. -/
def loaded (merge : Bool → Bool → Bool) (p : Params) (assignments : ℕ → List Char)
    (f : List Line) : Contents :=
  f.foldl (fun m l => load_section merge p assignments 0 m (l.region_offset,l.num_bytes))
    ⟨fun _ => none,fun _ => 0⟩

/-- An instance finds its own file, whatever instances came before it. -/
theorem preload_eq (merge : Bool → Bool → Bool) (p : Params) (f : List Line) {s : Loader}
    (h : s.Ready) :
    (∃ assignments,(preload merge p f s).1=loaded merge p assignments f ∧
      ∀ l ∈ f,assignments l.region_offset=digits f l.region_offset) ∧
        (preload merge p f s).2.Ready := by
  obtain ⟨hsections,hindex,hassign⟩ := read_taints_eq f s 0
  have hpre : preload merge p f s=
      drain (get_taint_section 0).source
        (load_section merge p ((read_taints f s).taint_assignments 0) 0)
        ⟨fun _ => none,fun _ => 0⟩ (read_taints f s) := rfl
  have hpos : (read_taints f s).taint_section_index 0=(s.taint_sections 0).length := by
    rw [hindex]
    exact h 0
  rw [hpre]
  refine ⟨⟨(read_taints f s).taint_assignments 0,?_,fun l hl => ?_⟩,?_⟩
  · rw [(get_taint_section 0).drain_fst]
    show (List.drop ((read_taints f s).taint_section_index 0)
      ((read_taints f s).taint_sections 0)).foldl _ _=_
    rw [hsections,hpos,List.drop_left]
    exact List.foldl_map
  · rcases exists_inForce hl with ⟨k,-,hk,-⟩
    rw [hassign _ k hk,digits,hk]
    rfl
  · have hle : (read_taints f s).taint_section_index 0≤
        ((read_taints f s).taint_sections 0).length := by
      rw [hpos,hsections,List.length_append]
      omega
    have hkeep : ∀ u : Loader,u.taint_section_index 0<(u.taint_sections 0).length →
        u.taint_section_index 0≤(u.taint_sections 0).length →
          ((get_taint_section 0).advance u).taint_section_index 0≤
            (((get_taint_section 0).advance u).taint_sections 0).length := by
      intro u hlt _
      show (if (0 : Fin NumTaints)=0 then u.taint_section_index 0+1
        else u.taint_section_index 0)≤(u.taint_sections 0).length
      rw [if_pos rfl]
      exact hlt
    have hend := (get_taint_section 0).drain_snd
      (load_section merge p ((read_taints f s).taint_assignments 0) 0) hkeep
      ⟨fun _ => none,fun _ => 0⟩ hle
    intro t
    rw [Subsingleton.elim t 0]
    exact Nat.le_antisymm hend.1 hend.2

/-- The loader serves every call, and the instances that have started hold their taints. -/
theorem boot_after (fs : Files) (cs : List Memory) :
    (after (Boot.step fs) Boot.empty cs).loader.Ready ∧
      ∀ c ∈ cs,∃ assignments,(after (Boot.step fs) Boot.empty cs).mem_taints c=
          (loaded c.merge c.params assignments (fs.of c)).mem_taints ∧
        ∀ l ∈ fs.of c,assignments l.region_offset=digits (fs.of c) l.region_offset := by
  induction cs using List.reverseRecOn with
  | nil => exact ⟨fun _ => rfl,fun c hc => absurd hc List.not_mem_nil⟩
  | append_singleton cs d ih =>
    obtain ⟨⟨assignments,himage,hdigits⟩,hready⟩ := preload_eq d.merge d.params (fs.of d) ih.1
    rw [after_concat]
    refine ⟨hready,fun c hc => ?_⟩
    by_cases hcd : c=d
    · rw [hcd]
      exact ⟨assignments,(if_pos rfl).trans (congrArg Contents.mem_taints himage),hdigits⟩
    · rcases List.mem_append.mp hc with hc | hc
      · rcases ih.2 c hc with ⟨others,hmem,hothers⟩
        exact ⟨others,(if_neg hcd).trans hmem,hothers⟩
      · exact absurd (List.mem_singleton.mp hc) hcd

end Files

end Pulpissimo.Dv.TaintLoader
