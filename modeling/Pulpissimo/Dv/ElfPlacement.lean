import Pulpissimo.Dv.ElfLoader

/-!
# Where preloading puts the bytes of a file

A file is preloaded rightly if the core finds every byte of every segment at its
address, and nothing elsewhere. The offset of an interleaved bank counts the bank
in full, not by words, so of the interleaved words only those of bank 0 come to
their place; the buffer of an instance keeps what earlier segments left, where the
vector of zeros should have been written; and a section without a file part is not
loaded. The placements for which all bytes are right, whatever the bytes are, are
stated exactly.
-/

namespace Pulpissimo.Dv.ElfPlacement

open Pulpissimo.Cellift.SramMap Pulpissimo.Dv.ElfLoader

/-- Byte of a memory, if its word was written. -/
def lookup (memory : Sram → ℕ → Option (Fin 4 → BitVec 8)) (pl : Place) : Option (BitVec 8) :=
  (memory pl.sram pl.row).map fun w => w pl.lane

/-- The core finds the segments in memory, and nothing else was written. -/
structure Preloaded (elf : Elf (BitVec 8)) (memory : Sram → ℕ → Option (Fin 4 → BitVec 8)) :
    Prop where
  /-- Bytes of the file part, and zeros after them. -/
  bytes : ∀ x ∈ segments elf.ph,∀ k<x.1.p_memsz,∃ pl,reach (x.1.p_paddr+k)=some pl ∧
    lookup memory pl=some (if k<x.1.p_filesz then elf.byte x.2 k else 0)
  /-- Bytes that the core reaches at no address of a segment. -/
  rest : ∀ pl,(∃ a,reach a=some pl) →
    (∀ x ∈ segments elf.ph,∀ k<x.1.p_memsz,reach (x.1.p_paddr+k)≠some pl) →
      lookup memory pl=none

/-- Bytes that the words of a section take. -/
def span (h : Phdr) : ℕ := WidthBytes*num_words h.p_memsz

/-- Whole words of the private memory, or one word of the first interleaved bank. -/
def InMap (h : Phdr) : Prop :=
  h.p_paddr%4=0 ∧
    (PER_START_ADDR≤h.p_paddr ∧ h.p_paddr+h.p_memsz≤PER_END_ADDR ∨
      TCDM_START_ADDR≤h.p_paddr ∧ h.p_paddr+h.p_memsz≤TCDM_END_ADDR ∧ h.p_paddr%16=0 ∧
        h.p_memsz≤4)

/-- Placements for which preloading is right. -/
structure Placed (ph : List Phdr) : Prop where
  /-- Segments with a file part lie where words come to their place. -/
  inMap : ∀ x ∈ copied ph,InMap x.1
  /-- They do not overlap. -/
  disjoint : ∀ x ∈ copied ph,∀ y ∈ copied ph,y.2<x.2 →
    x.1.p_paddr+x.1.p_memsz≤y.1.p_paddr ∨ y.1.p_paddr+y.1.p_memsz≤x.1.p_paddr
  /-- A segment that does not fill its words from the file has no longer file part before it. -/
  clean : ∀ x ∈ copied ph,∀ y ∈ copied ph,y.2<x.2 →
    span x.1≤x.1.p_filesz ∨ y.1.p_filesz≤x.1.p_filesz
  /-- The end of its last word belongs to some segment. -/
  covered : ∀ x ∈ copied ph,∀ m < span x.1,∃ y ∈ segments ph,∃ k<y.1.p_memsz,
    FC_DATA_add_int (y.1.p_paddr+k)=x.1.p_paddr+m
  /-- A segment without a file part lies in the zeros of one that has a file part. -/
  zeroed : ∀ y ∈ segments ph,y.1.p_filesz=0 → ∀ k<y.1.p_memsz,∃ x ∈ copied ph,
    x.1.p_paddr+x.1.p_filesz≤FC_DATA_add_int (y.1.p_paddr+k) ∧
      FC_DATA_add_int (y.1.p_paddr+k)<x.1.p_paddr+span x.1

section Lists

variable {ph : List Phdr}

theorem mem_copied {x : Phdr×ℕ} : x ∈ copied ph ↔ x ∈ segments ph ∧ x.1.p_filesz≠0 := by
  unfold copied segments
  rw [List.mem_filter,List.mem_filter,decide_eq_true_iff,decide_eq_true_iff,and_assoc]
  rfl

theorem memsz_pos {x : Phdr×ℕ} (hx : x ∈ segments ph) : 0<x.1.p_memsz :=
  Nat.pos_of_ne_zero (of_decide_eq_true (List.mem_filter.mp hx).2).2

/-- Segments are told apart by their numbers. -/
theorem eq_of_number {x y : Phdr×ℕ} (hx : x ∈ segments ph) (hy : y ∈ segments ph)
    (h : x.2=y.2) : x=y := by
  have hx := List.mem_zipIdx_iff_getElem?.mp (List.mem_filter.mp hx).1
  have hy := List.mem_zipIdx_iff_getElem?.mp (List.mem_filter.mp hy).1
  rw [h,hy] at hx
  exact Prod.ext (Option.some_inj.mp hx).symm h

/-- They are loaded by increasing number. -/
theorem copied_pairwise (ph : List Phdr) : (copied ph).Pairwise fun x y => x.2<y.2 := by
  apply List.Pairwise.filter
  rw [←List.pairwise_map]
  rw [List.zipIdx_map_snd]
  exact List.pairwise_lt_range'

/-- The segments before one in the list are those with a smaller number. -/
theorem before_iff {pre post : List (Phdr×ℕ)} {x : Phdr×ℕ} (h : copied ph=pre++x::post)
    {y : Phdr×ℕ} : y ∈ pre ↔ y ∈ copied ph ∧ y.2<x.2 := by
  have hpair := copied_pairwise ph
  rw [h] at hpair ⊢
  have hparts := List.pairwise_append.mp hpair
  have hafter := List.pairwise_cons.mp hparts.2.1
  constructor
  · intro hy
    exact ⟨List.mem_append_left _ hy,hparts.2.2 y hy x List.mem_cons_self⟩
  · rintro ⟨hy,hlt⟩
    rcases List.mem_append.mp hy with hy | hy
    · exact hy
    · rcases List.mem_cons.mp hy with rfl | hy
      · exact absurd hlt (Nat.lt_irrefl _)
      · exact absurd (hafter.1 y hy) (by omega)

end Lists

section Geometry

/-- In the offset of another bank, words of bank 0 have other counts. -/
theorem bank_of_count {a b r : ℕ} (hb : b<4) (hmod : a%16=0) (hle : 0x1C010000+0x1C000*b≤a)
    (h : (a-(0x1C010000+0x1C000*b))/4=4*r+b) : b=0 := by
  have hrest : (a-(0x1C010000+0x1C000*b))%16=0 := by omega
  omega

/-- Segments in place have a word for a row exactly if the row is in their words. -/
theorem wants_iff {x : Phdr×ℕ} (hx : InMap x.1) (hpos : 0<x.1.p_memsz) {pl : Place}
    (hpl : decode pl.add=some pl) :
    Wants pl.sram.params pl.row x ↔ x.1.p_paddr≤pl.add ∧ pl.add<x.1.p_paddr+span x.1 := by
  have hstop := ((decode_eq_some_iff).mp hpl).2
  obtain ⟨sram,row,lane⟩ := pl
  have hlane := lane.isLt
  obtain ⟨halign,hmap⟩ := hx
  cases sram with
  | interleaved_sram b =>
    have hb := b.isLt
    simp only [Wants,Params.Hits,Place.add,Sram.start,Sram.stop,Sram.params,span,num_words,
      TCDM_START_ADDR,TCDM_END_ADDR,PER_START_ADDR,PER_END_ADDR,WidthBytes] at *
    rcases hmap with ⟨-,hend⟩ | ⟨hlow,-,hmod,hlen⟩
    · have hbelow : ¬0x1C010000+4*0x7000*(b : ℕ)≤x.1.p_paddr := by omega
      have hpast : ¬0x1C010000+4*(4*row+(b : ℕ))+lane<x.1.p_paddr+
          4*((x.1.p_memsz+(4-1))/4) := by omega
      exact ⟨fun h => absurd h.1 hbelow,fun h => absurd h.2 hpast⟩
    · have hone : (x.1.p_memsz+(4-1))/4=1 := by omega
      rw [hone]
      constructor
      · rintro ⟨hle,hcount,hlast⟩
        have hbank := bank_of_count hb hmod hle (r:=row) (by omega)
        rw [hbank] at hle hcount hlast ⊢
        omega
      · rintro ⟨hfrom,hto⟩
        have hbank : (b : ℕ)=0 := by omega
        rw [hbank] at hfrom hto ⊢
        omega
  | pri1_sram =>
    simp only [Wants,Params.Hits,Place.add,Sram.start,Sram.stop,Sram.params,span,num_words,
      TCDM_START_ADDR,TCDM_END_ADDR,PER_START_ADDR,PER_END_ADDR,WidthBytes] at *
    rcases hmap with ⟨hlow,hhigh⟩ | ⟨hlow,hhigh,-⟩
    · constructor <;> omega
    · constructor <;> omega

/-- The byte of such a segment that a place gets. -/
theorem word_of_eq {x : Phdr×ℕ} (hx : InMap x.1) (hpos : 0<x.1.p_memsz) {pl : Place}
    (hpl : decode pl.add=some pl) (hwants : Wants pl.sram.params pl.row x) :
    pl.sram.params.word_of x.1.p_paddr pl.row*WidthBytes+pl.lane=pl.add-x.1.p_paddr := by
  obtain ⟨hlow,hhigh⟩ := (wants_iff hx hpos hpl).mp hwants
  obtain ⟨slack,hslack,haddr⟩ := Params.address_of_hits hwants
  have hle := hwants.1
  obtain ⟨sram,row,lane⟩ := pl
  have hlane := lane.isLt
  obtain ⟨halign,hmap⟩ := hx
  cases sram with
  | interleaved_sram b =>
    have hb := b.isLt
    simp only [Place.add,Sram.start,Sram.params,span,num_words,TCDM_START_ADDR,TCDM_END_ADDR,
      PER_START_ADDR,PER_END_ADDR,WidthBytes] at *
    have hbank : (b : ℕ)=0 := by omega
    rw [hbank] at haddr ⊢
    omega
  | pri1_sram =>
    simp only [Place.add,Sram.start,Sram.params,PER_START_ADDR,WidthBytes] at *
    omega

theorem span_le {x : Phdr×ℕ} (hx : InMap x.1) : span x.1≤PER_END_ADDR-PER_START_ADDR := by
  obtain ⟨halign,hmap⟩ := hx
  simp only [span,num_words,TCDM_START_ADDR,TCDM_END_ADDR,PER_START_ADDR,PER_END_ADDR,
    WidthBytes] at *
  omega

theorem le_span (h : Phdr) : h.p_memsz ≤ span h := by
  simp only [span,num_words,WidthBytes]
  omega

theorem span_pos {x : Phdr×ℕ} {ph : List Phdr} (hx : x ∈ copied ph) : 0 < span x.1 :=
  Nat.lt_of_lt_of_le (memsz_pos (mem_copied.mp hx).1) (le_span x.1)

/-- Segments in place that do not overlap share no word. -/
theorem span_disjoint {x y : Phdr×ℕ} (hx : InMap x.1) (hy : InMap y.1)
    (h : x.1.p_paddr+x.1.p_memsz≤y.1.p_paddr) : x.1.p_paddr+span x.1≤y.1.p_paddr := by
  have hax := hx.1
  have hay := hy.1
  simp only [span,num_words,WidthBytes]
  omega

end Geometry

section Buffer

variable (elf : Elf (BitVec 8)) {p : Params}

/-- A byte of the buffer is zero, or comes from the same place of a segment before. -/
theorem buffer_source {pre : List (Phdr×ℕ)} (hpre : ∀ x ∈ pre,x ∈ copied elf.ph) (m : ℕ) :
    (loaded elf p pre).buffer m=0 ∨
      ∃ y ∈ copied elf.ph,m<y.1.p_filesz ∧ (loaded elf p pre).buffer m=elf.byte y.2 m := by
  induction pre using List.reverseRecOn with
  | nil => exact Or.inl rfl
  | append_singleton pre x ih =>
    have hx := hpre x (List.mem_append_right _ (List.mem_singleton_self x))
    rcases exists_first hx with ⟨y,hy,hfirst,-⟩
    rw [loaded_concat,load_buffer hfirst]
    by_cases hm : m<y.1.p_filesz
    · rw [if_pos hm]
      exact Or.inr ⟨y,hy,hm,rfl⟩
    · rw [if_neg hm]
      exact ih fun z hz => hpre z (List.mem_append_left _ hz)

/-- Where no segment before is that long, the buffer is still zero. -/
theorem buffer_zero {pre : List (Phdr×ℕ)} {m : ℕ}
    (h : ∀ x ∈ pre,∃ y,first elf.ph x.1.p_paddr=some y ∧ y.1.p_filesz ≤ m) :
    (loaded elf p pre).buffer m=0 := by
  induction pre using List.reverseRecOn with
  | nil => rfl
  | append_singleton pre x ih =>
    obtain ⟨y,hy,hle⟩ := h x (List.mem_append_right _ (List.mem_singleton_self x))
    rw [loaded_concat,load_buffer hy,if_neg (by omega)]
    exact ih fun z hz => h z (List.mem_append_left _ hz)

/-- Bytes that are all one show every place of the buffer that some segment has filled. -/
theorem buffer_one {pre : List (Phdr×ℕ)} {m : ℕ} (hbyte : ∀ i k,elf.byte i k=1)
    (hpre : ∀ x ∈ pre,x ∈ copied elf.ph)
    (h : ∃ x ∈ pre,∃ y,first elf.ph x.1.p_paddr=some y ∧ m<y.1.p_filesz) :
    (loaded elf p pre).buffer m=1 := by
  induction pre using List.reverseRecOn with
  | nil =>
    obtain ⟨x,hx,-⟩ := h
    exact absurd hx List.not_mem_nil
  | append_singleton pre x ih =>
    have hx := hpre x (List.mem_append_right _ (List.mem_singleton_self x))
    rcases exists_first hx with ⟨y,-,hfirst,-⟩
    rw [loaded_concat,load_buffer hfirst]
    by_cases hm : m<y.1.p_filesz
    · rw [if_pos hm]
      exact hbyte y.2 m
    · rw [if_neg hm]
      refine ih (fun z hz => hpre z (List.mem_append_left _ hz)) ?_
      obtain ⟨z,hz,w,hw,hlt⟩ := h
      rcases List.mem_append.mp hz with hz | hz
      · exact ⟨z,hz,w,hw,hlt⟩
      · rw [List.mem_singleton.mp hz,hfirst] at hw
        rw [Option.some_inj.mp hw] at hm
        exact absurd hlt hm

end Buffer

section Sufficient

variable {elf : Elf (BitVec 8)} (hp : Placed elf.ph)
include hp

/-- Segments with overlapping words are one segment. -/
theorem Placed.eq_of_overlap {x y : Phdr×ℕ} (hx : x ∈ copied elf.ph) (hy : y ∈ copied elf.ph)
    {a : ℕ} (hxa : x.1.p_paddr≤a ∧ a<x.1.p_paddr+span x.1)
    (hya : y.1.p_paddr≤a ∧ a<y.1.p_paddr+span y.1) : x=y := by
  have hxs := (mem_copied.mp hx).1
  have hys := (mem_copied.mp hy).1
  have apart : ∀ u ∈ copied elf.ph,∀ v ∈ copied elf.ph,v.2<u.2 →
      u.1.p_paddr+span u.1≤v.1.p_paddr ∨ v.1.p_paddr+span v.1≤u.1.p_paddr := by
    intro u hu v hv hlt
    rcases hp.disjoint u hu v hv hlt with h | h
    · exact Or.inl (span_disjoint (hp.inMap u hu) (hp.inMap v hv) h)
    · exact Or.inr (span_disjoint (hp.inMap v hv) (hp.inMap u hu) h)
  rcases Nat.lt_trichotomy x.2 y.2 with hlt | heq | hlt
  · have := apart y hy x hx hlt
    omega
  · exact eq_of_number hxs hys heq
  · have := apart x hx y hy hlt
    omega

/-- An address has the bytes of the only segment there. -/
theorem Placed.first_eq {x : Phdr×ℕ} (hx : x ∈ copied elf.ph) :
    first elf.ph x.1.p_paddr=some x := by
  rcases exists_first hx with ⟨y,hy,hfirst,haddr⟩
  have hxpos := span_pos hx
  have hypos := span_pos hy
  have hsame : y=x := hp.eq_of_overlap hy hx (a:=x.1.p_paddr) (by omega) (by omega)
  rw [hfirst,hsame]

/-- The buffer that gives the words of a segment. -/
theorem Placed.buffer_eq {p : Params} {pre post : List (Phdr×ℕ)} {x : Phdr×ℕ}
    (h : copied elf.ph=pre++x::post) {m : ℕ} (hm : m < span x.1) :
    (loaded elf p (pre++[x])).buffer m=if m<x.1.p_filesz then elf.byte x.2 m else 0 := by
  have hx : x ∈ copied elf.ph := by
    rw [h]
    exact List.mem_append_right _ List.mem_cons_self
  rw [loaded_concat,load_buffer (hp.first_eq hx)]
  by_cases hfile : m<x.1.p_filesz
  · rw [if_pos hfile,if_pos hfile]
  · rw [if_neg hfile,if_neg hfile]
    apply buffer_zero elf
    intro y hy
    obtain ⟨hyc,hlt⟩ := (before_iff h).mp hy
    refine ⟨y,hp.first_eq hyc,?_⟩
    rcases hp.clean x hx y hyc hlt with hfull | hle
    · omega
    · omega

/-- What a memory holds in the words of a segment. -/
theorem Placed.lookup_eq (order : Order) {x : Phdr×ℕ} (hx : x ∈ copied elf.ph) {pl : Place}
    (hpl : decode pl.add=some pl)
    (hin : x.1.p_paddr≤pl.add ∧ pl.add<x.1.p_paddr+span x.1) :
    lookup (initialise order elf) pl=
      some (if pl.add-x.1.p_paddr<x.1.p_filesz then elf.byte x.2 (pl.add-x.1.p_paddr) else 0) := by
  have hpos := memsz_pos (mem_copied.mp hx).1
  have hmap := hp.inMap x hx
  have hwants := (wants_iff hmap hpos hpl).mpr hin
  rcases List.append_of_mem hx with ⟨pre,post,hlist⟩
  have hpost : ∀ y ∈ post,¬Wants pl.sram.params pl.row y := by
    intro y hy hw
    have hyc : y ∈ copied elf.ph := by
      rw [hlist]
      exact List.mem_append_right _ (List.mem_cons_of_mem _ hy)
    have hyin := (wants_iff (hp.inMap y hyc) (memsz_pos (mem_copied.mp hyc).1) hpl).mp hw
    have hsame : x=y := hp.eq_of_overlap hx hyc hin hyin
    have hpair := copied_pairwise elf.ph
    rw [hlist] at hpair
    have hlt := (List.pairwise_cons.mp (List.pairwise_append.mp hpair).2.1).1 y hy
    rw [hsame] at hlt
    exact absurd hlt (Nat.lt_irrefl _)
  have hword := word_of_eq hmap hpos hpl hwants
  have hspan := span_le hmap
  have hm : pl.add-x.1.p_paddr < span x.1 := by omega
  have hsize : pl.add-x.1.p_paddr<PreloadBufferSize := by
    simp only [PreloadBufferSize,PER_END_ADDR,PER_START_ADDR] at *
    omega
  unfold lookup
  rw [initialise_eq,image,hlist,memory_of_last pl.sram.bankId_lt hwants hpost,Option.map_some]
  unfold given word
  rw [hword,if_pos hsize,hp.buffer_eq hlist hm]

/-- A written byte belongs to the words of some segment. -/
theorem Placed.exists_of_lookup (order : Order) {pl : Place} (hpl : decode pl.add=some pl)
    {v : BitVec 8} (h : lookup (initialise order elf) pl=some v) :
    ∃ x ∈ copied elf.ph,x.1.p_paddr≤pl.add ∧ pl.add<x.1.p_paddr+span x.1 := by
  unfold lookup at h
  rw [initialise_eq] at h
  rcases Option.map_eq_some_iff.mp h with ⟨w,hw,-⟩
  rcases exists_last_of_memory pl.sram.bankId_lt hw with ⟨pre,x,post,hlist,hwants,-,-⟩
  have hx : x ∈ copied elf.ph := by
    rw [hlist]
    exact List.mem_append_right _ List.mem_cons_self
  exact ⟨x,hx,(wants_iff (hp.inMap x hx) (memsz_pos (mem_copied.mp hx).1) hpl).mp hwants⟩

/-- Placed segments are preloaded rightly. -/
theorem Placed.preloaded (order : Order) : Preloaded elf (initialise order elf) := by
  constructor
  · intro x hx k hk
    by_cases hfile : x.1.p_filesz=0
    · obtain ⟨y,hy,hlow,hhigh⟩ := hp.zeroed x hx hfile k hk
      have hmap := hp.inMap y hy
      have hbounds : PER_START_ADDR≤FC_DATA_add_int (x.1.p_paddr+k) ∧
          FC_DATA_add_int (x.1.p_paddr+k)<TCDM_END_ADDR := by
        obtain ⟨halign,hmap⟩ := hmap
        simp only [span,num_words,TCDM_START_ADDR,TCDM_END_ADDR,PER_START_ADDR,PER_END_ADDR,
          WidthBytes] at *
        omega
      obtain ⟨pl,hpl⟩ := exists_decode hbounds.1 hbounds.2
      have hadd := ((decode_eq_some_iff).mp hpl).1
      refine ⟨pl,hpl,?_⟩
      rw [hadd] at hpl hlow hhigh
      have hzero : ¬k<x.1.p_filesz := by omega
      have hpast : ¬pl.add-y.1.p_paddr<y.1.p_filesz := by omega
      rw [hp.lookup_eq order hy hpl ⟨by omega,hhigh⟩,if_neg hzero,if_neg hpast]
    · have hxc : x ∈ copied elf.ph := mem_copied.mpr ⟨hx,hfile⟩
      have hmap := hp.inMap x hxc
      have hbounds : PER_START_ADDR≤x.1.p_paddr+k ∧ x.1.p_paddr+k<TCDM_END_ADDR := by
        obtain ⟨halign,hmap⟩ := hmap
        simp only [TCDM_START_ADDR,TCDM_END_ADDR,PER_START_ADDR,PER_END_ADDR] at *
        omega
      obtain ⟨pl,hpl⟩ := exists_decode hbounds.1 hbounds.2
      have hadd := ((decode_eq_some_iff).mp hpl).1
      have hlarge : 2^20≤x.1.p_paddr+k := by
        simp only [PER_START_ADDR] at hbounds
        omega
      refine ⟨pl,(reach_of_ge hlarge).trans hpl,?_⟩
      rw [hadd] at hpl
      have hspan := le_span x.1
      have hoff : pl.add-x.1.p_paddr=k := by omega
      rw [hp.lookup_eq order hxc hpl ⟨by omega,by omega⟩,hoff]
  · rintro pl ⟨a,ha⟩ hnone
    have hadd := add_eq_of_reach ha
    have hpl : decode pl.add=some pl := by
      rw [←hadd]
      exact ha
    by_contra hsome
    rcases Option.ne_none_iff_exists'.mp hsome with ⟨v,hv⟩
    rcases hp.exists_of_lookup order hpl hv with ⟨x,hx,hlow,hhigh⟩
    obtain ⟨y,hy,k,hk,hreach⟩ := hp.covered x hx (pl.add-x.1.p_paddr) (by omega)
    refine hnone y hy k hk ?_
    have hsame : x.1.p_paddr+(pl.add-x.1.p_paddr)=pl.add := by omega
    rw [reach,hreach,hsame]
    exact hpl

end Sufficient

section Necessary

/-- A written byte comes from the buffer of the last segment with a word for its row. -/
theorem exists_writer {elf : Elf (BitVec 8)} {order : Order} {pl : Place} {v : BitVec 8}
    (h : lookup (initialise order elf) pl=some v) :
    ∃ pre x post,copied elf.ph=pre++x::post ∧ Wants pl.sram.params pl.row x ∧
      (∀ y ∈ post,¬Wants pl.sram.params pl.row y) ∧
        v=given pl.sram.params pl.row (loaded elf pl.sram.params (pre++[x])) x pl.lane := by
  unfold lookup at h
  rw [initialise_eq] at h
  rcases Option.map_eq_some_iff.mp h with ⟨w,hw,hv⟩
  rcases exists_last_of_memory pl.sram.bankId_lt hw with ⟨pre,x,post,hlist,hwants,hpost,hgiven⟩
  exact ⟨pre,x,post,hlist,hwants,hpost,by rw [←hv,hgiven]⟩

/-- At the first interleaved word, a segment has its first word. -/
theorem start_at_border {x : Phdr×ℕ} {pl : Place} (hpl : decode TCDM_START_ADDR=some pl)
    (hbased : Based pl) (hwants : Wants pl.sram.params pl.row x) :
    TCDM_START_ADDR≤x.1.p_paddr ∧ x.1.p_paddr<TCDM_START_ADDR+4 := by
  obtain ⟨hadd,hstop⟩ := (decode_eq_some_iff).mp hpl
  obtain ⟨sram,row,lane⟩ := pl
  cases sram with
  | pri1_sram => exact absurd hstop (Nat.lt_irrefl PER_END_ADDR)
  | interleaved_sram b =>
    have hb : 0x1C010000+4*0x7000*(b : ℕ)=0x1C010000 := hbased
    obtain ⟨hle,hlow,hhigh⟩ := hwants
    simp only [Place.add,Sram.params,Sram.start,TCDM_START_ADDR,WidthBytes] at *
    omega

/-- Bytes that are zero but for the first of one segment. -/
def mark (n : ℕ) : ℕ → ℕ → BitVec 8 := fun i k => if i=n ∧ k=0 then 1 else 0

theorem mark_self (n : ℕ) : mark n n 0=1 := if_pos ⟨rfl,rfl⟩

theorem eq_of_mark {n i k : ℕ} (h : mark n i k=1) : i=n ∧ k=0 := by
  by_contra hne
  rw [mark,if_neg hne] at h
  exact absurd h (by decide)

/-- The marked byte stays at the start of the buffer. -/
theorem mark_place {ph : List Phdr} {n m : ℕ} {p : Params} {pre : List (Phdr×ℕ)}
    (hpre : ∀ x ∈ pre,x ∈ copied ph) (h : (loaded ⟨ph,mark n⟩ p pre).buffer m=1) : m=0 := by
  rcases buffer_source ⟨ph,mark n⟩ hpre m with hzero | ⟨z,-,-,hz⟩
  · rw [h] at hzero
    exact absurd hzero (by decide)
  · rw [h] at hz
    exact (eq_of_mark hz.symm).2

/-- It is found there when a segment at the marked address was the last. -/
theorem mark_last {ph : List Phdr} {n : ℕ} {p : Params} {pre : List (Phdr×ℕ)} {y : Phdr×ℕ}
    (hy : y ∈ copied ph) (h : (loaded ⟨ph,mark n⟩ p (pre++[y])).buffer 0=1) :
    ∃ z ∈ copied ph,first ph y.1.p_paddr=some z ∧ z.1.p_paddr=y.1.p_paddr ∧ z.2=n := by
  rcases exists_first hy with ⟨z,hz,hfirst,haddr⟩
  have hfile : 0<z.1.p_filesz := Nat.pos_of_ne_zero (mem_copied.mp hz).2
  rw [loaded_concat,load_buffer hfirst,if_pos hfile] at h
  exact ⟨z,hz,hfirst,haddr,(eq_of_mark h).1⟩

/-- A word takes from the buffer. -/
theorem given_eq {p : Params} {r : ℕ} {m : Contents (BitVec 8)} {x : Phdr×ℕ} {lane : Fin 4}
    {v : BitVec 8} (h : given p r m x lane=v) (hv : v≠0) :
    m.buffer (p.word_of x.1.p_paddr r*WidthBytes+lane)=v := by
  unfold given word at h
  by_cases hsize : p.word_of x.1.p_paddr r*WidthBytes+lane<PreloadBufferSize
  · rw [if_pos hsize] at h
    exact h
  · rw [if_neg hsize] at h
    exact absurd h.symm hv

theorem mem_of_split {ph : List Phdr} {pre post : List (Phdr×ℕ)} {y : Phdr×ℕ}
    (h : copied ph=pre++y::post) : ∀ z ∈ pre++[y],z ∈ copied ph := by
  intro z hz
  rw [h]
  rcases List.mem_append.mp hz with hz | hz
  · exact List.mem_append_left _ hz
  · rw [List.mem_singleton.mp hz]
    exact List.mem_append_right _ List.mem_cons_self

/-- The first byte of a word lies at the start of a segment that is counted from its region. -/
theorem start_of_word {x : Phdr×ℕ} {pl : Place} (hbased : Based pl)
    (hwants : Wants pl.sram.params pl.row x)
    (hindex : pl.sram.params.word_of x.1.p_paddr pl.row*WidthBytes+pl.lane=0) :
    pl.sram.start≤x.1.p_paddr ∧ pl.add≤x.1.p_paddr ∧ x.1.p_paddr<pl.add+4 ∧ pl.add%4=0 := by
  obtain ⟨slack,hslack,haddr⟩ := Params.address_of_hits hwants
  have hle := hwants.1
  have hstart := pl.sram.start_spec.1
  have hbased : pl.sram.params.AddrOffset=pl.sram.start := hbased
  rw [hbased] at haddr hle
  simp only [WidthBytes] at hindex
  have hword : pl.sram.params.word_of x.1.p_paddr pl.row=0 := by omega
  have hlane : (pl.lane : ℕ)=0 := by omega
  rw [hword] at haddr
  unfold Place.add
  rw [hlane]
  omega

variable {ph : List Phdr} {order : Order}
  (hall : ∀ byte,Preloaded ⟨ph,byte⟩ (initialise order ⟨ph,byte⟩))
include hall

/-- No byte of a segment lies in an interleaved bank other than the first: the
highest such byte would have been written by a segment with a higher one. -/
theorem based_of_reach {x : Phdr×ℕ} (hx : x ∈ segments ph) {k : ℕ} (hk : k<x.1.p_memsz)
    {pl : Place} (hpl : reach (x.1.p_paddr+k)=some pl) : Based pl := by
  induction hn : TCDM_END_ADDR-pl.add using Nat.strong_induction_on generalizing x k pl with
  | _ n ih =>
    by_contra hbased
    have hadd := add_eq_of_reach hpl
    have hdecode : decode pl.add=some pl := by
      rw [←hadd]
      exact hpl
    obtain ⟨pl',hpl',hlook⟩ := (hall fun _ _ => 0).bytes x hx k hk
    rw [hpl] at hpl'
    rw [←Option.some_inj.mp hpl'] at hlook
    rcases exists_writer hlook with ⟨pre,y,post,hlist,hwants,-,-⟩
    have hyc : y ∈ copied ph := by
      rw [hlist]
      exact List.mem_append_right _ List.mem_cons_self
    have hy := (mem_copied.mp hyc).1
    have hj := Params.word_of_lt hwants
    obtain ⟨hup,hother⟩ := further_up hbased hwants
    obtain ⟨q,hq,-⟩ := (hall fun _ _ => 0).bytes y hy _ hj
    have hlow := (decode_bounds hdecode).1
    have hlarge : 2^20≤y.1.p_paddr+4*pl.sram.params.word_of y.1.p_paddr pl.row := by
      simp only [PER_START_ADDR] at hlow
      omega
    have hqd := (reach_of_ge hlarge).symm.trans hq
    have hqadd := ((decode_eq_some_iff).mp hqd).1
    have hqend := (decode_bounds hqd).2
    have hless : TCDM_END_ADDR-q.add<n := by omega
    exact hother q hqd (ih _ hless hy hj hq rfl)

/-- A segment with a file part starts at its own bytes, on a word of a region. -/
theorem start_of_copied {x : Phdr×ℕ} (hx : x ∈ copied ph) :
    first ph x.1.p_paddr=some x ∧ x.1.p_paddr%4=0 ∧
      ∃ pl,decode x.1.p_paddr=some pl ∧ Based pl := by
  obtain ⟨hseg,hfile⟩ := mem_copied.mp hx
  have hpos := memsz_pos hseg
  obtain ⟨pl,hpl,hlook⟩ := (hall (mark x.2)).bytes x hseg 0 hpos
  have hbased := based_of_reach hall hseg hpos hpl
  have hvalue : lookup (initialise order ⟨ph,mark x.2⟩) pl=some 1 := by
    rw [hlook,if_pos (Nat.pos_of_ne_zero hfile)]
    exact congrArg some (mark_self x.2)
  rcases exists_writer hvalue with ⟨pre,y,post,hlist,hwants,-,hgiven⟩
  have hmem := mem_of_split hlist
  have hyc := hmem y (List.mem_append_right _ (List.mem_singleton_self y))
  have hbuffer := given_eq hgiven.symm (by decide)
  have hindex := mark_place hmem hbuffer
  rw [hindex] at hbuffer
  rcases mark_last hyc hbuffer with ⟨z,hzc,hfirst,haddr,hnumber⟩
  have hzx : z=x := eq_of_number (mem_copied.mp hzc).1 hseg hnumber
  rw [hzx] at hfirst haddr
  -- The segment that gives the byte lies at the address of the segment it belongs to.
  obtain ⟨hstart,hlow,hhigh,halign⟩ := start_of_word hbased hwants hindex
  have hlarge : 2^20≤x.1.p_paddr := by
    rw [haddr]
    exact Nat.le_trans pl.sram.start_spec.2 hstart
  have hdecode := (reach_of_ge (a:=x.1.p_paddr+0) hlarge).symm.trans hpl
  have hadd : x.1.p_paddr=pl.add := ((decode_eq_some_iff).mp hdecode).1
  refine ⟨?_,?_,pl,hdecode,hbased⟩
  · rw [haddr]
    exact hfirst
  · rw [hadd]
    exact halign

/-- No segment with a file part starts within another segment. -/
theorem start_not_within {x y : Phdr×ℕ} (hx : x ∈ copied ph) (hy : y ∈ segments ph)
    (hne : y.2≠x.2) : ¬(y.1.p_paddr≤x.1.p_paddr ∧ x.1.p_paddr<y.1.p_paddr+y.1.p_memsz) := by
  rintro ⟨hlow,hhigh⟩
  obtain ⟨hseg,hfile⟩ := mem_copied.mp hx
  obtain ⟨pl,hpl,hlook⟩ := (hall (mark x.2)).bytes x hseg 0 (memsz_pos hseg)
  obtain ⟨pl',hpl',hlook'⟩ := (hall (mark x.2)).bytes y hy (x.1.p_paddr-y.1.p_paddr) (by omega)
  have haddr : y.1.p_paddr+(x.1.p_paddr-y.1.p_paddr)=x.1.p_paddr+0 := by omega
  rw [haddr,hpl] at hpl'
  have hzero : (mark x.2) y.2 (x.1.p_paddr-y.1.p_paddr)=0 := if_neg fun h => hne h.1
  rw [←Option.some_inj.mp hpl',hlook,if_pos (Nat.pos_of_ne_zero hfile)] at hlook'
  have hone : (mark x.2) x.2 0=
      if x.1.p_paddr-y.1.p_paddr<y.1.p_filesz then (mark x.2) y.2 (x.1.p_paddr-y.1.p_paddr) else 0 :=
    Option.some_inj.mp hlook'
  rw [mark_self,hzero,ite_self] at hone
  exact absurd hone (by decide)

/-- Segments with a file part do not overlap. -/
theorem apart_of_copied {x y : Phdr×ℕ} (hx : x ∈ copied ph) (hy : y ∈ copied ph) (hne : y.2≠x.2) :
    x.1.p_paddr+x.1.p_memsz≤y.1.p_paddr ∨ y.1.p_paddr+y.1.p_memsz≤x.1.p_paddr := by
  have hxy := start_not_within hall hx (mem_copied.mp hy).1 hne
  have hyx := start_not_within hall hy (mem_copied.mp hx).1 hne.symm
  omega

/-- Segments with a file part lie in the map. -/
theorem inMap_of_copied {x : Phdr×ℕ} (hx : x ∈ copied ph) : InMap x.1 := by
  obtain ⟨hfirst,halign,pl,hpl,hbased⟩ := start_of_copied hall hx
  have hseg := (mem_copied.mp hx).1
  have hpos := memsz_pos hseg
  have hbounds := decode_bounds hpl
  have hlarge : ∀ k,2^20≤x.1.p_paddr+k := by
    intro k
    have hlow := hbounds.1
    simp only [PER_START_ADDR] at hlow
    omega
  have hbyte : ∀ k<x.1.p_memsz,∃ q,decode (x.1.p_paddr+k)=some q ∧ Based q := by
    intro k hk
    obtain ⟨q,hq,-⟩ := (hall fun _ _ => 0).bytes x hseg k hk
    exact ⟨q,(reach_of_ge (hlarge k)).symm.trans hq,based_of_reach hall hseg hk hq⟩
  refine ⟨halign,?_⟩
  by_cases hpri : x.1.p_paddr<PER_END_ADDR
  · refine Or.inl ⟨hbounds.1,?_⟩
    by_contra hcross
    -- The word behind the private memory would come from a segment that starts there.
    obtain ⟨q,hq,hqbased⟩ := hbyte (PER_END_ADDR-x.1.p_paddr) (by omega)
    obtain ⟨q',hq',hlook⟩ := (hall fun _ _ => 0).bytes x hseg (PER_END_ADDR-x.1.p_paddr) (by omega)
    have hq' := (reach_of_ge (hlarge _)).symm.trans hq'
    have haddr : x.1.p_paddr+(PER_END_ADDR-x.1.p_paddr)=TCDM_START_ADDR := by
      show x.1.p_paddr+(PER_END_ADDR-x.1.p_paddr)=PER_END_ADDR
      omega
    rw [hq] at hq'
    rw [haddr] at hq
    rw [←Option.some_inj.mp hq'] at hlook
    rcases exists_writer hlook with ⟨pre,y,post,hlist,hwants,-,-⟩
    have hyc : y ∈ copied ph := mem_of_split hlist y
      (List.mem_append_right _ (List.mem_singleton_self y))
    have hborder := start_at_border hq hqbased hwants
    have hyalign := (start_of_copied hall hyc).2.1
    have hyaddr : y.1.p_paddr=PER_END_ADDR := by
      simp only [TCDM_START_ADDR,PER_END_ADDR] at *
      omega
    have hne : x.2≠y.2 := by
      intro h
      rw [eq_of_number hseg (mem_copied.mp hyc).1 h] at hpri
      omega
    exact start_not_within hall hyc hseg hne ⟨by omega,by omega⟩
  · have hge : TCDM_START_ADDR≤x.1.p_paddr := Nat.le_of_not_lt hpri
    obtain ⟨q,hq,-⟩ := hbyte (x.1.p_memsz-1) (by omega)
    have hend := (decode_bounds hq).2
    have hmod := mod_of_based hpl hbased hge
    refine Or.inr ⟨hge,by omega,by omega,?_⟩
    by_contra hlong
    obtain ⟨q,hq,hqbased⟩ := hbyte 4 (by omega)
    have hnext := mod_of_based hq hqbased (by omega)
    omega

/-- The segment that gives a byte has it among its own words. -/
theorem writer_of_lookup {byte : ℕ → ℕ → BitVec 8} {pl : Place} (hpl : decode pl.add=some pl)
    {v : BitVec 8} (h : lookup (initialise order ⟨ph,byte⟩) pl=some v) :
    ∃ pre x post,copied ph=pre++x::post ∧ x.1.p_paddr≤pl.add ∧
      pl.add<x.1.p_paddr+span x.1 ∧
        v=(loaded ⟨ph,byte⟩ pl.sram.params (pre++[x])).buffer (pl.add-x.1.p_paddr) := by
  rcases exists_writer h with ⟨pre,x,post,hlist,hwants,-,hgiven⟩
  have hx : x ∈ copied ph := mem_of_split hlist x
    (List.mem_append_right _ (List.mem_singleton_self x))
  have hmap := inMap_of_copied hall hx
  have hpos := memsz_pos (mem_copied.mp hx).1
  obtain ⟨hlow,hhigh⟩ := (wants_iff hmap hpos hpl).mp hwants
  have hspan := span_le hmap
  have hsize : pl.add-x.1.p_paddr<PreloadBufferSize := by
    simp only [PreloadBufferSize,PER_END_ADDR,PER_START_ADDR] at *
    omega
  refine ⟨pre,x,post,hlist,hlow,hhigh,?_⟩
  rw [hgiven]
  unfold given word
  rw [word_of_eq hmap hpos hpl hwants,if_pos hsize]

/-- The words of a segment are written. -/
theorem written_of_span {byte : ℕ → ℕ → BitVec 8} {x : Phdr×ℕ} (hx : x ∈ copied ph) {pl : Place}
    (hpl : decode pl.add=some pl) (hlow : x.1.p_paddr≤pl.add)
    (hhigh : pl.add<x.1.p_paddr+span x.1) :
    lookup (initialise order ⟨ph,byte⟩) pl≠none := by
  have hwants := (wants_iff (inMap_of_copied hall hx) (memsz_pos (mem_copied.mp hx).1) hpl).mpr
    ⟨hlow,hhigh⟩
  rcases LastWrite.exists_last ⟨x,hx,hwants⟩ with ⟨pre,y,post,hlist,hy,hpost⟩
  have hlist : copied (Elf.ph (⟨ph,byte⟩ : Elf (BitVec 8)))=pre++y::post := hlist
  intro h
  unfold lookup at h
  rw [initialise_eq,image,hlist,memory_of_last pl.sram.bankId_lt hy hpost] at h
  cases h

/-- An address among the words of a segment has a byte behind it. -/
theorem place_of_span {x : Phdr×ℕ} (hx : x ∈ copied ph) {m : ℕ} (hm : m < span x.1) :
    ∃ pl,decode (x.1.p_paddr+m)=some pl ∧ pl.add=x.1.p_paddr+m ∧
      reach (x.1.p_paddr+m)=some pl := by
  obtain ⟨halign,hmap⟩ := inMap_of_copied hall hx
  have hbounds : PER_START_ADDR≤x.1.p_paddr+m ∧ x.1.p_paddr+m<TCDM_END_ADDR ∧
      2^20≤x.1.p_paddr+m := by
    simp only [span,num_words,WidthBytes,TCDM_START_ADDR,TCDM_END_ADDR,PER_START_ADDR,
      PER_END_ADDR] at *
    omega
  obtain ⟨pl,hpl⟩ := exists_decode hbounds.1 hbounds.2.1
  exact ⟨pl,hpl,((decode_eq_some_iff).mp hpl).1.symm,(reach_of_ge hbounds.2.2).trans hpl⟩

/-- Every byte of its words belongs to a segment. -/
theorem covered_of_copied {x : Phdr×ℕ} (hx : x ∈ copied ph) {m : ℕ} (hm : m < span x.1) :
    ∃ y ∈ segments ph,∃ k<y.1.p_memsz,FC_DATA_add_int (y.1.p_paddr+k)=x.1.p_paddr+m := by
  obtain ⟨pl,hpl,hadd,hreach⟩ := place_of_span hall hx hm
  by_contra hnone
  have hempty := (hall fun _ _ => 0).rest pl ⟨_,hreach⟩ fun y hy k hk hy' =>
    hnone ⟨y,hy,k,hk,(add_eq_of_reach hy').trans hadd⟩
  rw [←hadd] at hpl
  exact written_of_span hall hx hpl (by omega) (by omega) hempty

/-- Behind the file part of a segment, zeros are due up to the end of its words. -/
theorem zero_due {x : Phdr×ℕ} (hx : x ∈ copied ph) {m : ℕ} (hm : m < span x.1)
    (hfile : x.1.p_filesz ≤ m) {pl : Place} (hpl : decode (x.1.p_paddr+m)=some pl)
    (byte : ℕ → ℕ → BitVec 8) : lookup (initialise order ⟨ph,byte⟩) pl=some 0 := by
  obtain ⟨y,hy,k,hk,haddr⟩ := covered_of_copied hall hx hm
  obtain ⟨q,hq,hlook⟩ := (hall byte).bytes y hy k hk
  have hsame : q=pl := by
    rw [reach,haddr,hpl] at hq
    exact (Option.some_inj.mp hq).symm
  have hzero : y.1.p_filesz≤k := by
    by_contra hlong
    have hyc : y ∈ copied ph := mem_copied.mpr ⟨hy,by omega⟩
    have hxmap := inMap_of_copied hall hx
    have hymap := inMap_of_copied hall hyc
    have hlow := (decode_bounds (start_of_copied hall hyc).2.2.choose_spec.1).1
    have hlarge : 2^20≤y.1.p_paddr+k := by
      simp only [PER_START_ADDR] at hlow
      omega
    rw [FC_of_ge hlarge] at haddr
    by_cases hne : y.2=x.2
    · rw [eq_of_number hy (mem_copied.mp hx).1 hne] at hlong haddr
      omega
    · have hyspan := le_span y.1
      rcases apart_of_copied hall hx hyc hne with h | h
      · have := span_disjoint hxmap hymap h
        omega
      · omega
  rw [←hsame,hlook,if_neg (by omega)]

/-- The buffer has no byte of an earlier segment where zeros are due. -/
theorem clean_of_copied {x y : Phdr×ℕ} (hx : x ∈ copied ph) (hy : y ∈ copied ph) (hlt : y.2<x.2) :
    span x.1≤x.1.p_filesz ∨ y.1.p_filesz≤x.1.p_filesz := by
  by_contra hdirty
  have hm : x.1.p_filesz < span x.1 := by omega
  obtain ⟨pl,hpl,hadd,-⟩ := place_of_span hall hx hm
  have hzero := zero_due hall hx hm (Nat.le_refl _) hpl fun _ _ => 1
  rw [←hadd] at hpl
  rcases writer_of_lookup hall hpl hzero with ⟨pre,z,post,hlist,hlow,hhigh,hvalue⟩
  have hzc : z ∈ copied ph := mem_of_split hlist z
    (List.mem_append_right _ (List.mem_singleton_self z))
  have hzx : z=x := by
    by_contra hne
    have hnumber : z.2≠x.2 := fun h =>
      hne (eq_of_number (mem_copied.mp hzc).1 (mem_copied.mp hx).1 h)
    have hxmap := inMap_of_copied hall hx
    have hzmap := inMap_of_copied hall hzc
    rcases apart_of_copied hall hx hzc hnumber with h | h
    · have := span_disjoint hxmap hzmap h
      omega
    · have := span_disjoint hzmap hxmap h
      omega
  rw [hzx] at hlist hvalue
  have hyfirst := (start_of_copied hall hy).1
  have hypre := (before_iff hlist).mpr ⟨hy,hlt⟩
  have hone := buffer_one ⟨ph,fun _ _ => 1⟩ (p:=pl.sram.params) (fun _ _ => rfl)
    (mem_of_split hlist) ⟨y,List.mem_append_left _ hypre,y,hyfirst,by omega⟩
    (m:=pl.add-x.1.p_paddr)
  rw [hone] at hvalue
  exact absurd hvalue (by decide)

/-- A segment without a file part lies in zeros that were loaded. -/
theorem zeroed_of_segment {y : Phdr×ℕ} (hy : y ∈ segments ph) (hfile : y.1.p_filesz=0) {k : ℕ}
    (hk : k<y.1.p_memsz) :
    ∃ x ∈ copied ph,x.1.p_paddr+x.1.p_filesz≤FC_DATA_add_int (y.1.p_paddr+k) ∧
      FC_DATA_add_int (y.1.p_paddr+k)<x.1.p_paddr+span x.1 := by
  obtain ⟨pl,hreach,hlook⟩ := (hall fun _ _ => 1).bytes y hy k hk
  have hadd := add_eq_of_reach hreach
  have hpl : decode pl.add=some pl := by
    rw [←hadd]
    exact hreach
  have hnofile : ¬k<y.1.p_filesz := by omega
  rw [if_neg hnofile] at hlook
  rcases writer_of_lookup hall hpl hlook with ⟨pre,x,post,hlist,hlow,hhigh,hvalue⟩
  have hmem := mem_of_split hlist
  have hlast : x ∈ pre++[x] := List.mem_append_right _ (List.mem_singleton_self x)
  have hx := hmem x hlast
  refine ⟨x,hx,?_,by omega⟩
  by_contra hfilled
  have hone := buffer_one ⟨ph,fun _ _ => 1⟩ (p:=pl.sram.params) (fun _ _ => rfl) hmem
    ⟨x,hlast,x,(start_of_copied hall hx).1,by omega⟩ (m:=pl.add-x.1.p_paddr)
  rw [hone] at hvalue
  exact absurd hvalue (by decide)

/-- Segments that are preloaded rightly with every content are placed. -/
theorem placed_of_preloaded : Placed ph where
  inMap := fun x hx => inMap_of_copied hall hx
  disjoint := fun x hx y hy hlt => apart_of_copied hall hx hy (by omega)
  clean := fun x hx y hy hlt => clean_of_copied hall hx hy hlt
  covered := fun x hx m hm => covered_of_copied hall hx hm
  zeroed := fun y hy hfile k hk => zeroed_of_segment hall hy hfile hk

end Necessary

/-- Preloading is right for every content of the segments exactly if they are placed. -/
theorem preloaded_iff_placed (ph : List Phdr) (order : Order) :
    (∀ byte,Preloaded ⟨ph,byte⟩ (initialise order ⟨ph,byte⟩)) ↔ Placed ph :=
  ⟨fun h => placed_of_preloaded h,fun h byte => @Placed.preloaded ⟨ph,byte⟩ h order⟩

/-- Two words at the start of the interleaved region. -/
def twoWords : Elf (BitVec 8) :=
  ⟨[⟨PT_LOAD,TCDM_START_ADDR,8,8,by decide,by decide⟩],fun _ k => BitVec.ofNat 8 (k+1)⟩

/-- The instances in the order of their numbers. -/
def byNumber : Order where
  srams := [.interleaved_sram 0,.interleaved_sram 1,.interleaved_sram 2,.interleaved_sram 3,.pri1_sram]
  all := by
    intro c
    cases c with
    | pri1_sram => decide
    | interleaved_sram b =>
      revert b
      decide

/-- The core looks for the second word in bank 1, which was given no word. -/
theorem second_word_missing :
    reach (TCDM_START_ADDR+4)=some ⟨.interleaved_sram 1,0,0⟩ ∧
      initialise byNumber twoWords (.interleaved_sram 1) 0=none ∧
        ¬Preloaded twoWords (initialise byNumber twoWords) := by
  have hreach : reach (TCDM_START_ADDR+4)=some ⟨.interleaved_sram 1,0,0⟩ := by decide
  have hempty : initialise byNumber twoWords (.interleaved_sram 1) 0=none := by
    rw [initialise_eq]
    rfl
  refine ⟨hreach,hempty,fun h => ?_⟩
  obtain ⟨pl,hpl,hlook⟩ := h.bytes _ List.mem_cons_self 4 (by decide)
  have hpl : reach (TCDM_START_ADDR+4)=some pl := hpl
  rw [hreach] at hpl
  rw [←Option.some_inj.mp hpl,lookup,hempty] at hlook
  cases hlook

end Pulpissimo.Dv.ElfPlacement
