import Mathlib.Data.BitVec
import Mathlib.Data.List.Induction
import Pulpissimo.Cellift.SramMap
import Pulpissimo.Lib.Drain
import Pulpissimo.Lib.LastWrite
import Pulpissimo.Lib.Machine

/-!
# Preloading of ELF files

`elfloader.cc` with the initial block of `ift_sram` that calls it. The loader keeps
its list of sections and their bytes between the calls of the instances, and each
instance keeps one buffer between its sections. The parts of a file that are not
copied into memory (symbols, the vector of zeros, which nothing reads) are left out.
-/

namespace Pulpissimo.Dv.ElfLoader

open Pulpissimo.Machine Pulpissimo.Drain Pulpissimo.Cellift.SramMap

variable {α : Type*}

abbrev PT_LOAD : ℕ := 1

abbrev PreloadBufferSize : ℕ := 100000

/-- A program header of a well-formed file for a 32-bit core. -/
structure Phdr where
  /-- Type. -/
  p_type : ℕ
  /-- Physical address. -/
  p_paddr : ℕ
  /-- Bytes in the file. -/
  p_filesz : ℕ
  /-- Bytes in memory. -/
  p_memsz : ℕ
  /-- The file has no more bytes than the memory. -/
  filesz_le : p_filesz≤p_memsz
  /-- The segment lies in the address space. -/
  end_le : p_paddr+p_memsz≤2^32

/-- What the loader reads of a file with bytes of type `α`. -/
structure Elf (α : Type*) where
  /-- Program headers. -/
  ph : List Phdr
  /-- Bytes of the file part of each segment. -/
  byte : ℕ → ℕ → α

/-- Globals of the loader. -/
structure Loader (α : Type*) where
  /-- Address and size of each section. -/
  sections : List (ℕ×ℕ)
  /-- Bytes by address. -/
  mems : ℕ → Option (List α)
  /-- Section that is handed out next. -/
  section_index : ℕ

/-- Before the first file. -/
def Loader.empty : Loader α := ⟨[],fun _ => none,0⟩

/-- Insertion keeps what an address has already. -/
def write (s : Loader α) (address : ℕ) (buf : List α) : Loader α :=
  { s with mems := fun a => if a=address then (s.mems a).or (some buf) else s.mems a }

/-- The file part of a numbered segment. -/
def Elf.file (elf : Elf α) (x : Phdr×ℕ) : List α := (List.range x.1.p_filesz).map (elf.byte x.2)

/-- One program header. -/
def read_phdr (elf : Elf α) (s : Loader α) (x : Phdr×ℕ) : Loader α :=
  if x.1.p_type=PT_LOAD ∧ x.1.p_memsz≠0 then
    if x.1.p_filesz≠0 then
      write { s with sections := s.sections++[(x.1.p_paddr,x.1.p_memsz)] } x.1.p_paddr (elf.file x)
    else s
  else s

/-- All program headers. -/
def read_elf (elf : Elf α) (s : Loader α) : Loader α := elf.ph.zipIdx.foldl (read_phdr elf) s

/-- `get_section` hands out the next section, while there is one. -/
def get_section : Cursor (Loader α) (ℕ×ℕ) where
  items := Loader.sections
  pos := Loader.section_index
  advance := fun s => { s with section_index := s.section_index+1 }
  items_advance := fun _ => rfl
  pos_advance := fun _ => rfl

/-- Copy of the bytes at an address over the start of a buffer. -/
def read_section (mems : ℕ → Option (List α)) (address : ℕ) (buffer : ℕ → α) : ℕ → α :=
  fun i => (((mems address).getD [])[i]?).getD (buffer i)

/-- Memory and buffer of an instance in its initial block. A word that was never
written is undefined. -/
structure Contents (α : Type*) where
  /-- Words by row. -/
  memory : ℕ → Option (Fin 4 → α)
  /-- Buffer. -/
  buffer : ℕ → α

section Preload

variable [Zero α] (p : Params)

/-- Word of a buffer. Reads behind its end give zero; writes there are not defined,
and the bytes are lost here. -/
def word (buffer : ℕ → α) (i : ℕ) : Fin 4 → α := fun j =>
  if i*WidthBytes+j<PreloadBufferSize then buffer (i*WidthBytes+j) else 0

/-- One section. -/
def load_section (mems : ℕ → Option (List α)) (m : Contents α) (x : ℕ×ℕ) : Contents α :=
  let buffer := read_section mems x.1 m.buffer
  ⟨(List.range (num_words x.2)).foldl (p.store x.1 (word buffer)) m.memory,buffer⟩

/-- The initial block of an instance, with the loop over the sections. -/
def preload (elf : Elf α) (s : Loader α) : Contents α×Loader α :=
  drain get_section.source (load_section p (read_elf elf s).mems) ⟨fun _ => none,fun _ => 0⟩
    (read_elf elf s)

end Preload

section Read

/-- The loader loads the segment. -/
def Phdr.IsSegment (h : Phdr) : Prop := h.p_type=PT_LOAD ∧ h.p_memsz≠0

instance (h : Phdr) : Decidable h.IsSegment := instDecidableAnd

/-- It copies bytes for the segment. -/
def Phdr.IsCopied (h : Phdr) : Prop := h.IsSegment ∧ h.p_filesz≠0

instance (h : Phdr) : Decidable h.IsCopied := instDecidableAnd

/-- Numbered segments. -/
def segments (ph : List Phdr) : List (Phdr×ℕ) := ph.zipIdx.filter fun x => x.1.IsSegment

/-- Numbered segments with a file part. -/
def copied (ph : List Phdr) : List (Phdr×ℕ) := ph.zipIdx.filter fun x => x.1.IsCopied

/-- The segment whose bytes an address gets. -/
def first (ph : List Phdr) (a : ℕ) : Option (Phdr×ℕ) := (copied ph).find? fun x => x.1.p_paddr=a

/-- Every segment with a file part finds bytes at its address. -/
theorem exists_first {ph : List Phdr} {x : Phdr×ℕ} (hx : x ∈ copied ph) :
    ∃ y ∈ copied ph,first ph x.1.p_paddr=some y ∧ y.1.p_paddr=x.1.p_paddr := by
  have hsome : (first ph x.1.p_paddr).isSome :=
    List.find?_isSome.mpr ⟨x,hx,decide_eq_true rfl⟩
  rcases Option.isSome_iff_exists.mp hsome with ⟨y,hy⟩
  have hfound : decide (y.1.p_paddr=x.1.p_paddr)=true := List.find?_some (p:=fun z : Phdr×ℕ =>
    decide (z.1.p_paddr=x.1.p_paddr)) hy
  exact ⟨y,List.mem_of_find?_eq_some hy,hy,of_decide_eq_true hfound⟩

/-- Bytes by address, from this file. -/
def Elf.mems (elf : Elf α) (a : ℕ) : Option (List α) := (first elf.ph a).map elf.file

/-- Sections of this file. -/
def Elf.sections (elf : Elf α) : List (ℕ×ℕ) :=
  (copied elf.ph).map fun x => (x.1.p_paddr,x.1.p_memsz)

/-- What a list of program headers adds to the loader. -/
theorem foldl_read_phdr (elf : Elf α) (xs : List (Phdr×ℕ)) (s : Loader α) :
    xs.foldl (read_phdr elf) s=
      ⟨s.sections++(xs.filter fun x => x.1.IsCopied).map fun x => (x.1.p_paddr,x.1.p_memsz),
        fun a => (s.mems a).or
          (((xs.filter fun x => x.1.IsCopied).find? fun x => x.1.p_paddr=a).map elf.file),
        s.section_index⟩ := by
  induction xs generalizing s with
  | nil =>
    simp only [List.foldl_nil,List.filter_nil,List.map_nil,List.append_nil,List.find?_nil,
      Option.map_none,Option.or_none]
  | cons x xs ih =>
    rw [List.foldl_cons,ih,List.filter_cons]
    by_cases hx : x.1.IsCopied
    · have hread : read_phdr elf s x=
          write { s with sections := s.sections++[(x.1.p_paddr,x.1.p_memsz)] } x.1.p_paddr
            (elf.file x) := by
        have hseg : x.1.p_type=PT_LOAD ∧ x.1.p_memsz≠0 := hx.1
        rw [read_phdr,if_pos hseg,if_pos hx.2]
      rw [hread,if_pos (decide_eq_true hx),List.map_cons]
      simp only [write,List.append_assoc,List.singleton_append,Loader.mk.injEq,true_and,and_true]
      funext a
      rw [List.find?_cons]
      by_cases ha : a=x.1.p_paddr
      · rw [if_pos ha,decide_eq_true ha.symm,Option.or_assoc]
        rfl
      · have hne : ¬x.1.p_paddr=a := fun h => ha h.symm
        rw [if_neg ha,decide_eq_false hne]
    · have hread : read_phdr elf s x=s := by
        unfold read_phdr
        by_cases hseg : x.1.p_type=PT_LOAD ∧ x.1.p_memsz≠0
        · rw [if_pos hseg,if_neg fun h => hx ⟨hseg,h⟩]
        · rw [if_neg hseg]
      rw [hread,if_neg fun h => hx (of_decide_eq_true h)]

theorem read_elf_eq (elf : Elf α) (s : Loader α) :
    read_elf elf s=⟨s.sections++elf.sections,fun a => (s.mems a).or (elf.mems a),
      s.section_index⟩ :=
  foldl_read_phdr elf elf.ph.zipIdx s

/-- All sections were handed out, and an address has no bytes or those of this file. -/
structure Loader.Ready (elf : Elf α) (s : Loader α) : Prop where
  /-- Sections. -/
  index : s.section_index=s.sections.length
  /-- Bytes. -/
  mems : ∀ a,s.mems a=none ∨ s.mems a=elf.mems a

theorem Loader.empty_ready (elf : Elf α) : (Loader.empty : Loader α).Ready elf :=
  ⟨rfl,fun _ => Or.inl rfl⟩

theorem Loader.Ready.read_mems {elf : Elf α} {s : Loader α} (h : s.Ready elf) :
    (read_elf elf s).mems=elf.mems := by
  rw [read_elf_eq]
  funext a
  rcases h.mems a with hnone | hsame
  · show (s.mems a).or _=_
    rw [hnone,Option.none_or]
  · show (s.mems a).or _=_
    rw [hsame,Option.or_self]

end Read

section Image

variable [Zero α]

/-- One segment of a file, at a memory. -/
def load (elf : Elf α) (p : Params) (m : Contents α) (x : Phdr×ℕ) : Contents α :=
  load_section p elf.mems m (x.1.p_paddr,x.1.p_memsz)

/-- Memory and buffer after some segments. -/
def loaded (elf : Elf α) (p : Params) (xs : List (Phdr×ℕ)) : Contents α :=
  xs.foldl (load elf p) ⟨fun _ => none,fun _ => 0⟩

/-- An instance finds its own call of the loader, whatever instances came before it. -/
theorem preload_eq {elf : Elf α} {s : Loader α} (h : s.Ready elf) (p : Params) :
    (preload p elf s).1=loaded elf p (copied elf.ph) ∧ (preload p elf s).2.Ready elf := by
  have hmems := h.read_mems
  have hsections : (read_elf elf s).sections=s.sections++elf.sections := by rw [read_elf_eq]
  have hindex : (read_elf elf s).section_index=s.sections.length := by
    rw [read_elf_eq]
    exact h.index
  have hle : (read_elf elf s).section_index≤(read_elf elf s).sections.length := by
    rw [hindex,hsections,List.length_append]
    omega
  unfold preload
  constructor
  · rw [get_section.drain_fst]
    show (List.drop (read_elf elf s).section_index (read_elf elf s).sections).foldl _ _=_
    rw [hsections,hindex,List.drop_left,hmems]
    exact List.foldl_map
  · have hend := get_section.drain_snd (load_section p (read_elf elf s).mems)
      (P:=fun t => t.mems=elf.mems ∧ t.section_index≤t.sections.length)
      (fun t hlt ht => ⟨ht.1,hlt⟩) ⟨fun _ => none,fun _ => 0⟩ ⟨hmems,hle⟩
    exact ⟨Nat.le_antisymm hend.1.2 hend.2,fun a => Or.inr (congrFun hend.1.1 a)⟩

/-- What the initial block of an instance leaves in its memory. -/
def image (elf : Elf α) (p : Params) : ℕ → Option (Fin 4 → α) :=
  (loaded elf p (copied elf.ph)).memory

/-- The loader and the memories while the instances start. -/
structure Boot (α : Type*) where
  /-- Loader. -/
  loader : Loader α
  /-- Memories. -/
  memory : Sram → ℕ → Option (Fin 4 → α)

/-- Before the first instance. -/
def Boot.empty : Boot α := ⟨Loader.empty,fun _ _ => none⟩

/-- The initial block of one instance. -/
def Boot.step (elf : Elf α) (s : Boot α) (c : Sram) : Boot α :=
  ⟨(preload c.params elf s.loader).2,fun d =>
    if d=c then (preload c.params elf s.loader).1.memory else s.memory d⟩

/-- The simulator starts the instances in some order, and each of them. -/
structure Order where
  /-- Order of the initial blocks. -/
  srams : List Sram
  /-- Every instance starts. -/
  all : ∀ c,c ∈ srams

/-- Memories after all initial blocks. -/
def initialise (order : Order) (elf : Elf α) : Sram → ℕ → Option (Fin 4 → α) :=
  (after (Boot.step elf) Boot.empty order.srams).memory

/-- The memory an instance wrote itself. -/
theorem Boot.step_self (elf : Elf α) (s : Boot α) (c : Sram) :
    (Boot.step elf s c).memory c=(preload c.params elf s.loader).1.memory := if_pos rfl

/-- Other memories. -/
theorem Boot.step_other (elf : Elf α) (s : Boot α) {c d : Sram} (h : d≠c) :
    (Boot.step elf s c).memory d=s.memory d := if_neg h

/-- The loader serves every call, and the instances that have started hold their image. -/
theorem boot_after (elf : Elf α) (cs : List Sram) :
    (after (Boot.step elf) Boot.empty cs).loader.Ready elf ∧
      ∀ c ∈ cs,(after (Boot.step elf) Boot.empty cs).memory c=image elf c.params := by
  induction cs using List.reverseRecOn with
  | nil => exact ⟨Loader.empty_ready elf,fun c hc => absurd hc List.not_mem_nil⟩
  | append_singleton cs d ih =>
    have hd := preload_eq ih.1 d.params
    rw [after_concat]
    refine ⟨hd.2,fun c hc => ?_⟩
    by_cases hcd : c=d
    · rw [hcd,Boot.step_self]
      exact congrArg Contents.memory hd.1
    · rw [Boot.step_other elf _ hcd]
      rcases List.mem_append.mp hc with hc | hc
      · exact ih.2 c hc
      · exact absurd (List.mem_singleton.mp hc) hcd

/-- The order of the instances does not matter. -/
theorem initialise_eq (order : Order) (elf : Elf α) (c : Sram) :
    initialise order elf c=image elf c.params :=
  (boot_after elf order.srams).2 c (order.all c)

section Steps

variable {elf : Elf α} {p : Params}

theorem loaded_concat (xs : List (Phdr×ℕ)) (x : Phdr×ℕ) :
    loaded elf p (xs++[x])=load elf p (loaded elf p xs) x :=
  List.foldl_concat _ _ _ _

/-- The buffer after one segment. -/
theorem load_buffer {x y : Phdr×ℕ} (hy : first elf.ph x.1.p_paddr=some y) (m : Contents α)
    (i : ℕ) :
    (load elf p m x).buffer i=if i<y.1.p_filesz then elf.byte y.2 i else m.buffer i := by
  show ((((first elf.ph x.1.p_paddr).map elf.file).getD [])[i]?).getD (m.buffer i)=_
  rw [hy,Option.map_some,Option.getD_some]
  by_cases hi : i<y.1.p_filesz
  · have hlen : i<(elf.file y).length := by
      rw [Elf.file,List.length_map,List.length_range]
      exact hi
    rw [if_pos hi,List.getElem?_eq_getElem hlen,Option.getD_some]
    simp only [Elf.file,List.getElem_map,List.getElem_range]
  · have hlen : (elf.file y).length ≤ i := by
      rw [Elf.file,List.length_map,List.length_range]
      omega
    rw [if_neg hi,List.getElem?_eq_none hlen,Option.getD_none]

/-- The segment has a word for the row. -/
def Wants (p : Params) (r : ℕ) (x : Phdr×ℕ) : Prop :=
  p.Hits x.1.p_paddr (num_words x.1.p_memsz) r

instance (r : ℕ) (x : Phdr×ℕ) : Decidable (Wants p r x) := instDecidableAnd

/-- The word it has for the row. -/
def given (p : Params) (r : ℕ) (m : Contents α) (x : Phdr×ℕ) : Fin 4 → α :=
  word m.buffer (p.word_of x.1.p_paddr r)

/-- A row after one segment. -/
theorem load_memory (hb : p.BankId<p.NumBanks) (m : Contents α) (x : Phdr×ℕ) (r : ℕ) :
    (load elf p m x).memory r=
      if Wants p r x then some (given p r (load elf p m x) x) else m.memory r :=
  Params.foldl_store hb _ _ _ _

/-- A segment without a word for a row leaves the row. -/
theorem load_elsewhere (hb : p.BankId<p.NumBanks) {r : ℕ} (m : Contents α) (x : Phdr×ℕ)
    (hx : ¬Wants p r x) : (load elf p m x).memory r=m.memory r := by
  rw [load_memory hb,if_neg hx]

/-- A row that no segment has a word for is not written. -/
theorem memory_of_untouched (hb : p.BankId<p.NumBanks) {xs : List (Phdr×ℕ)} {r : ℕ}
    (h : ∀ x ∈ xs,¬Wants p r x) : (loaded elf p xs).memory r=none := by
  have hkeep : ∀ (m : Contents α) x,¬Wants p r x → (load elf p m x).memory r=m.memory r :=
    load_elsewhere hb
  exact LastWrite.look_of_untouched (fun m : Contents α => m.memory r) hkeep h

/-- The last segment with a word for a row gives the word, from the buffer at that time. -/
theorem memory_of_last (hb : p.BankId<p.NumBanks) {pre post : List (Phdr×ℕ)} {x : Phdr×ℕ} {r : ℕ}
    (hx : Wants p r x) (hpost : ∀ y ∈ post,¬Wants p r y) :
    (loaded elf p (pre++x::post)).memory r=some (given p r (loaded elf p (pre++[x])) x) := by
  have hkeep : ∀ (m : Contents α) x,¬Wants p r x → (load elf p m x).memory r=m.memory r :=
    load_elsewhere hb
  have hput : ∀ (m : Contents α) x,Wants p r x →
      (load elf p m x).memory r=some (given p r (load elf p m x) x) := by
    intro m x hx
    rw [load_memory hb,if_pos hx]
  rw [loaded_concat]
  exact LastWrite.look_of_last (fun m : Contents α => m.memory r) hkeep hput hx hpost

/-- A written row has a last segment with a word for it. -/
theorem exists_last_of_memory (hb : p.BankId<p.NumBanks) {xs : List (Phdr×ℕ)} {r : ℕ}
    {w : Fin 4 → α} (h : (loaded elf p xs).memory r=some w) :
    ∃ pre x post,xs=pre++x::post ∧ Wants p r x ∧ (∀ y ∈ post,¬Wants p r y) ∧
      w=given p r (loaded elf p (pre++[x])) x := by
  have hex : ∃ x ∈ xs,Wants p r x := by
    by_contra hnone
    have hmem : (loaded elf p xs).memory r=none :=
      memory_of_untouched hb fun x hx hwants => hnone ⟨x,hx,hwants⟩
    rw [h] at hmem
    cases hmem
  rcases LastWrite.exists_last hex with ⟨pre,x,post,hxs,hx,hpost⟩
  refine ⟨pre,x,post,hxs,hx,hpost,?_⟩
  rw [hxs,memory_of_last hb hx hpost] at h
  exact (Option.some_inj.mp h).symm

end Steps

end Image

end Pulpissimo.Dv.ElfLoader
