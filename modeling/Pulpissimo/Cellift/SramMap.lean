import Mathlib.Data.BitVec
import Mathlib.Data.Fin.Basic
import Mathlib.Data.List.Basic
import Pulpissimo.Lib.Indices

/-!
# Instances of the memory and the addresses of the core

The five memories that replace the cuts of the L2, with the parameters the
deparameterisation writes, and the row and byte lane that an address of the core
reaches through the interconnect. The initial blocks of a memory sort the words of
a section by bank and row; which section word ends in a row is solved here for all
sections.
-/

namespace Pulpissimo.Cellift.SramMap

abbrev WidthBytes : ℕ := 4

/-- Parameters of an instance that place the words of a section. -/
structure Params where
  /-- Banks among which words are dealt. -/
  NumBanks : ℕ
  /-- Number of this bank. -/
  BankId : ℕ
  /-- Address from which words are counted. -/
  AddrOffset : ℕ

section Words

variable (p : Params) (section_addr : ℕ)

/-- Count of a word of a section from the offset on. -/
def Params.word_index (i : ℕ) : ℕ := (section_addr-p.AddrOffset)/WidthBytes+i

/-- The word belongs to this bank. -/
def Params.IsBank (i : ℕ) : Prop :=
  p.AddrOffset ≤ section_addr ∧ p.word_index section_addr i%p.NumBanks=p.BankId

instance (i : ℕ) : Decidable (p.IsBank section_addr i) := instDecidableAnd

/-- Row of the word. -/
def Params.row (i : ℕ) : ℕ := p.word_index section_addr i/p.NumBanks

/-- Words of a section of `section_len` bytes. -/
def num_words (section_len : ℕ) : ℕ := (section_len+(WidthBytes-1))/WidthBytes

/-- One pass of the loop over the words: a word of this bank is written to its row. -/
def Params.store {β : Type*} (word : ℕ → β) (memory : ℕ → Option β) (i : ℕ) : ℕ → Option β :=
  if p.IsBank section_addr i then
    fun r => if r=p.row section_addr i then some (word i) else memory r
  else memory

/-- The section has a word for the row. -/
def Params.Hits (words r : ℕ) : Prop :=
  p.AddrOffset ≤ section_addr ∧ (section_addr-p.AddrOffset)/WidthBytes≤p.NumBanks*r+p.BankId ∧
    p.NumBanks*r+p.BankId<(section_addr-p.AddrOffset)/WidthBytes+words

instance (words r : ℕ) : Decidable (p.Hits section_addr words r) := instDecidableAnd

/-- Number of the word within its section. -/
def Params.word_of (r : ℕ) : ℕ := p.NumBanks*r+p.BankId-(section_addr-p.AddrOffset)/WidthBytes

variable {p section_addr}

/-- Bank and row of a word give back its count. -/
theorem Params.isBank_row_iff (hb : p.BankId<p.NumBanks) {i r : ℕ} :
    p.IsBank section_addr i ∧ r=p.row section_addr i ↔
      p.AddrOffset ≤ section_addr ∧ p.word_index section_addr i=p.NumBanks*r+p.BankId := by
  have hpos : 0<p.NumBanks := by omega
  have hdiv := Nat.div_add_mod (p.word_index section_addr i) p.NumBanks
  constructor
  · rintro ⟨⟨hle,hmod⟩,hrow⟩
    rw [Params.row] at hrow
    rw [hmod,←hrow] at hdiv
    exact ⟨hle,hdiv.symm⟩
  · rintro ⟨hle,hindex⟩
    refine ⟨⟨hle,?_⟩,?_⟩
    · rw [hindex,Nat.mul_add_mod,Nat.mod_eq_of_lt hb]
    · rw [Params.row,hindex,Nat.mul_add_div hpos,Nat.div_eq_of_lt hb,Nat.add_zero]

/-- A row after one pass of the loop. -/
theorem Params.store_apply {β : Type*} (word : ℕ → β) (memory : ℕ → Option β) (i r : ℕ) :
    p.store section_addr word memory i r=
      if p.IsBank section_addr i ∧ r=p.row section_addr i then some (word i) else memory r := by
  unfold Params.store
  by_cases hbank : p.IsBank section_addr i
  · rw [if_pos hbank]
    exact if_congr (and_iff_right hbank).symm rfl rfl
  · rw [if_neg hbank,if_neg fun h => hbank h.1]

/-- A section that gets one word longer has a word for one more row. -/
theorem Params.hits_succ (hb : p.BankId<p.NumBanks) {n r : ℕ} :
    p.Hits section_addr (n+1) r ↔ p.Hits section_addr n r ∨
      p.IsBank section_addr n ∧ r=p.row section_addr n := by
  rw [Params.isBank_row_iff hb,Params.word_index]
  constructor
  · rintro ⟨hle,hlow,hhigh⟩
    by_cases hnew : (section_addr-p.AddrOffset)/WidthBytes+n=p.NumBanks*r+p.BankId
    · exact Or.inr ⟨hle,hnew⟩
    · exact Or.inl ⟨hle,hlow,by omega⟩
  · rintro (⟨hle,hlow,hhigh⟩ | ⟨hle,hnew⟩)
    · exact ⟨hle,hlow,by omega⟩
    · exact ⟨hle,by omega,by omega⟩

/-- The word that makes the difference is the one of the row. -/
theorem Params.new_word (hb : p.BankId<p.NumBanks) {n r : ℕ}
    (h : p.IsBank section_addr n ∧ r=p.row section_addr n) :
    ¬p.Hits section_addr n r ∧ p.word_of section_addr r=n := by
  have hnew := ((Params.isBank_row_iff hb).mp h).2
  rw [Params.word_index] at hnew
  refine ⟨fun hhits => ?_,?_⟩
  · have := hhits.2.2
    omega
  · rw [Params.word_of]
    omega

/-- What the loop over the words of a section does at a row: the section's word for
the row, if there is one, is put there, and the other words pass by. -/
theorem Params.foldl_words {σ β : Type*} (hb : p.BankId<p.NumBanks) (look : σ → β)
    (put : β → ℕ → β) {step : σ → ℕ → σ} {words r : ℕ}
    (hstep : ∀ s,∀ i<words,look (step s i)=
      if p.IsBank section_addr i ∧ r=p.row section_addr i then put (look s) i else look s) (s : σ) :
    look ((List.range words).foldl step s)=
      if p.Hits section_addr words r then put (look s) (p.word_of section_addr r) else look s := by
  induction words with
  | zero =>
    have hnone : ¬p.Hits section_addr 0 r := fun h => by
      have := h.2
      omega
    rw [if_neg hnone]
    rfl
  | succ n ih =>
    have hrest := ih fun s i hi => hstep s i (Nat.lt_succ_of_lt hi)
    rw [List.range_succ,List.foldl_append,List.foldl_cons,List.foldl_nil,
      hstep _ n (Nat.lt_succ_self n),hrest]
    by_cases hnew : p.IsBank section_addr n ∧ r=p.row section_addr n
    · obtain ⟨hnot,hword⟩ := Params.new_word hb hnew
      rw [if_pos hnew,if_neg hnot,if_pos ((Params.hits_succ hb).mpr (Or.inr hnew)),hword]
    · have hsame : p.Hits section_addr n r ↔ p.Hits section_addr (n+1) r :=
        ⟨fun h => (Params.hits_succ hb).mpr (Or.inl h),
          fun h => ((Params.hits_succ hb).mp h).resolve_right hnew⟩
      rw [if_neg hnew]
      exact if_congr hsame rfl rfl

/-- What it leaves in a row of a memory that is overwritten. -/
theorem Params.foldl_store {β : Type*} (hb : p.BankId<p.NumBanks) (word : ℕ → β)
    (memory : ℕ → Option β) (words r : ℕ) :
    ((List.range words).foldl (p.store section_addr word) memory) r=
      if p.Hits section_addr words r then some (word (p.word_of section_addr r)) else memory r :=
  Params.foldl_words hb (fun memory : ℕ → Option β => memory r) (fun _ i => some (word i))
    (fun memory i _ => Params.store_apply word memory i r) memory

/-- Address of the section's word for a row, up to misalignment. -/
theorem Params.address_of_hits {words r : ℕ} (h : p.Hits section_addr words r) :
    ∃ slack<4,section_addr+4*p.word_of section_addr r=
      p.AddrOffset+4*(p.NumBanks*r+p.BankId)+slack := by
  obtain ⟨hle,hlow,hhigh⟩ := h
  refine ⟨(section_addr-p.AddrOffset)%4,Nat.mod_lt _ (by omega),?_⟩
  simp only [Params.word_of,WidthBytes] at *
  omega

/-- That word starts in the section. -/
theorem Params.word_of_lt {section_len r : ℕ}
    (h : p.Hits section_addr (num_words section_len) r) :
    4*p.word_of section_addr r < section_len := by
  obtain ⟨hle,hlow,hhigh⟩ := h
  simp only [Params.word_of,num_words,WidthBytes] at *
  omega

end Words

/-- The memories of the deparameterised design. -/
inductive Sram
  | interleaved_sram (b : Fin 4)
  | pri1_sram
  deriving DecidableEq

/-- Parameters of each of them. -/
def Sram.params : Sram → Params
  | .interleaved_sram b => ⟨4,b,0x1C010000+4*0x7000*b⟩
  | .pri1_sram => ⟨1,0,0x1C008000⟩

/-- A byte of a memory. -/
structure Place where
  /-- Memory. -/
  sram : Sram
  /-- Row. -/
  row : ℕ
  /-- Byte of the word. -/
  lane : Fin 4
  deriving DecidableEq

/-- Start of the interleaved region. -/
abbrev TCDM_START_ADDR : ℕ := 0x1C010000

/-- End of the interleaved region. -/
abbrev TCDM_END_ADDR : ℕ := 0x1C082000

/-- Start of the bridge of the private memory. -/
abbrev PER_START_ADDR : ℕ := 0x1C008000

/-- End of that bridge. -/
abbrev PER_END_ADDR : ℕ := 0x1C010000

/-- Rows of a bank that lie below the interleaved region. -/
abbrev L2_OFFSET_PRI : ℕ := 0x1000

/-- Data addresses of the core with no upper bits stand for the L2. -/
def FC_DATA_add_int (add : ℕ) : ℕ := if add/2^20=0 then 0x1C0*2^20+add else add

/-- Byte behind an address on the bus. -/
def decode (add : ℕ) : Option Place :=
  if TCDM_START_ADDR≤add ∧ add<TCDM_END_ADDR then
    let resized := add/4%2^17
    some ⟨.interleaved_sram (Fin.ofNat 4 resized),(resized/4+2^15-L2_OFFSET_PRI)%2^15,
      Fin.ofNat 4 add⟩
  else if PER_START_ADDR≤add ∧ add<PER_END_ADDR then
    some ⟨.pri1_sram,add/4%2^13,Fin.ofNat 4 add⟩
  else none

/-- Byte that a load of the core reaches. -/
def reach (add : ℕ) : Option Place := decode (FC_DATA_add_int add)

/-- First address of the region a memory is part of. -/
def Sram.start : Sram → ℕ
  | .interleaved_sram _ => TCDM_START_ADDR
  | .pri1_sram => PER_START_ADDR

/-- End of that region. -/
def Sram.stop : Sram → ℕ
  | .interleaved_sram _ => TCDM_END_ADDR
  | .pri1_sram => PER_END_ADDR

/-- Address on the bus of a byte, counted through the banks. -/
def Place.add (pl : Place) : ℕ :=
  pl.sram.start+4*(pl.sram.params.NumBanks*pl.row+pl.sram.params.BankId)+pl.lane

theorem Sram.bankId_lt (c : Sram) : c.params.BankId < c.params.NumBanks := by
  cases c with
  | interleaved_sram b => exact b.isLt
  | pri1_sram => exact Nat.one_pos

/-- Regions start on a word and above the addresses that stand for others. -/
theorem Sram.start_spec (c : Sram) : c.start%4=0 ∧ 2^20 ≤ c.start := by
  cases c with
  | interleaved_sram b =>
    show TCDM_START_ADDR%4=0 ∧ 2^20≤TCDM_START_ADDR
    decide
  | pri1_sram =>
    show PER_START_ADDR%4=0 ∧ 2^20≤PER_START_ADDR
    decide

/-- The interconnect deals the words of a region among its banks in order. -/
theorem decode_eq_some_iff {add : ℕ} {pl : Place} :
    decode add=some pl ↔ add=pl.add ∧ add<pl.sram.stop := by
  obtain ⟨sram,row,lane⟩ := pl
  have hlane := lane.isLt
  have hlane_iff : Fin.ofNat 4 add=lane ↔ add%4=lane := Fin.ext_iff
  unfold decode Place.add
  by_cases htcdm : TCDM_START_ADDR≤add ∧ add<TCDM_END_ADDR
  · rw [if_pos htcdm]
    have hrange : 0x1C010000≤add ∧ add<0x1C082000 := htcdm
    cases sram with
    | interleaved_sram b =>
      have hb := b.isLt
      have hb_iff : Fin.ofNat 4 (add/4%2^17)=b ↔ add/4%2^17%4=b := Fin.ext_iff
      simp only [Option.some.injEq,Place.mk.injEq,Sram.interleaved_sram.injEq,hlane_iff,hb_iff,
        Sram.start,Sram.stop,Sram.params,L2_OFFSET_PRI,TCDM_START_ADDR,TCDM_END_ADDR]
      omega
    | pri1_sram =>
      simp only [Option.some.injEq,Place.mk.injEq,reduceCtorEq,false_and,Sram.start,Sram.stop,
        Sram.params,false_iff,PER_START_ADDR,PER_END_ADDR]
      omega
  · rw [if_neg htcdm]
    have houtside : ¬(0x1C010000≤add ∧ add<0x1C082000) := htcdm
    by_cases hper : PER_START_ADDR≤add ∧ add<PER_END_ADDR
    · rw [if_pos hper]
      have hrange : 0x1C008000≤add ∧ add<0x1C010000 := hper
      cases sram with
      | interleaved_sram b =>
        simp only [Option.some.injEq,Place.mk.injEq,reduceCtorEq,false_and,Sram.start,Sram.stop,
          Sram.params,false_iff,TCDM_START_ADDR,TCDM_END_ADDR]
        omega
      | pri1_sram =>
        simp only [Option.some.injEq,Place.mk.injEq,true_and,hlane_iff,Sram.start,Sram.stop,
          Sram.params,PER_START_ADDR,PER_END_ADDR]
        omega
    · rw [if_neg hper]
      have hbeside : ¬(0x1C008000≤add ∧ add<0x1C010000) := hper
      cases sram with
      | interleaved_sram b =>
        simp only [reduceCtorEq,Sram.start,Sram.stop,Sram.params,false_iff,TCDM_START_ADDR,
          TCDM_END_ADDR]
        omega
      | pri1_sram =>
        simp only [reduceCtorEq,Sram.start,Sram.stop,Sram.params,false_iff,PER_START_ADDR,
          PER_END_ADDR]
        omega

/-- Two addresses that reach one byte are one address on the bus. -/
theorem add_eq_of_reach {a : ℕ} {pl : Place} (h : reach a=some pl) : FC_DATA_add_int a=pl.add :=
  ((decode_eq_some_iff).mp h).1

theorem FC_of_ge {a : ℕ} (h : 2^20≤a) : FC_DATA_add_int a=a := by
  have hne : a/2^20≠0 := by omega
  rw [FC_DATA_add_int,if_neg hne]

theorem reach_of_ge {a : ℕ} (h : 2^20≤a) : reach a=decode a := by
  rw [reach,FC_of_ge h]

/-- Every address of the two regions has a byte behind it. -/
theorem exists_decode {a : ℕ} (hlow : PER_START_ADDR≤a) (hhigh : a<TCDM_END_ADDR) :
    ∃ pl,decode a=some pl := by
  unfold decode
  by_cases htcdm : TCDM_START_ADDR≤a ∧ a<TCDM_END_ADDR
  · exact ⟨_,if_pos htcdm⟩
  · have hper : PER_START_ADDR≤a ∧ a<PER_END_ADDR := by
      refine ⟨hlow,?_⟩
      have : ¬TCDM_START_ADDR≤a := fun h => htcdm ⟨h,hhigh⟩
      exact Nat.lt_of_not_le this
    exact ⟨_,(if_neg htcdm).trans (if_pos hper)⟩

theorem decode_bounds {a : ℕ} {pl : Place} (h : decode a=some pl) :
    PER_START_ADDR≤a ∧ a<TCDM_END_ADDR := by
  obtain ⟨hadd,hstop⟩ := (decode_eq_some_iff).mp h
  obtain ⟨sram,row,lane⟩ := pl
  unfold Place.add at hadd
  cases sram with
  | interleaved_sram b =>
    simp only [Sram.start,Sram.stop,TCDM_START_ADDR,TCDM_END_ADDR,PER_START_ADDR] at *
    omega
  | pri1_sram =>
    simp only [Sram.start,Sram.stop,TCDM_END_ADDR,PER_START_ADDR,PER_END_ADDR] at *
    omega

/-- The words of the place's bank are counted from the start of its region. -/
def Based (pl : Place) : Prop := pl.sram.params.AddrOffset=pl.sram.start

/-- Of the interleaved words, every fourth is counted from the start of the region. -/
theorem mod_of_based {a : ℕ} {pl : Place} (hpl : decode a=some pl) (hbased : Based pl)
    (h : TCDM_START_ADDR≤a) : a%16<4 := by
  obtain ⟨hadd,hstop⟩ := (decode_eq_some_iff).mp hpl
  obtain ⟨sram,row,lane⟩ := pl
  have hlane := lane.isLt
  cases sram with
  | pri1_sram =>
    simp only [Sram.stop,PER_END_ADDR,TCDM_START_ADDR] at hstop h
    omega
  | interleaved_sram b =>
    have hb : 0x1C010000+4*0x7000*(b : ℕ)=0x1C010000 := hbased
    simp only [Place.add,Sram.params,Sram.start,TCDM_START_ADDR] at hadd
    omega

theorem mod_of_count {b r slack : ℕ} (hb : b<4) (hslack : slack<4) :
    (0x1C010000+4*0x7000*b+4*(4*r+b)+slack)%16=4*b+slack := by omega

/-- A section's word for a row of another bank starts further up, in that bank. -/
theorem further_up {a words : ℕ} {pl : Place} (hbased : ¬Based pl)
    (hhits : pl.sram.params.Hits a words pl.row) :
    pl.add<a+4*pl.sram.params.word_of a pl.row ∧
      ∀ other,decode (a+4*pl.sram.params.word_of a pl.row)=some other → ¬Based other := by
  obtain ⟨sram,row,lane⟩ := pl
  have hlane := lane.isLt
  cases sram with
  | pri1_sram => exact absurd rfl hbased
  | interleaved_sram b =>
    have hb := b.isLt
    have hb0 : (b : ℕ)≠0 := fun h => hbased (by
      show 0x1C010000+4*0x7000*(b : ℕ)=0x1C010000
      omega)
    obtain ⟨slack,hslack,haddr⟩ := Params.address_of_hits hhits
    have haddr : a+4*(Sram.interleaved_sram b).params.word_of a row=
        0x1C010000+4*0x7000*(b : ℕ)+4*(4*row+b)+slack := haddr
    constructor
    · rw [haddr]
      simp only [Place.add,Sram.params,Sram.start,TCDM_START_ADDR]
      omega
    · intro other hother hob
      rw [haddr] at hother
      have hlow : TCDM_START_ADDR≤0x1C010000+4*0x7000*(b : ℕ)+4*(4*row+b)+slack := by
        simp only [TCDM_START_ADDR]
        omega
      have hmod := mod_of_based hother hob hlow
      rw [mod_of_count hb hslack] at hmod
      omega

/-- Private words, and interleaved words on four, are counted from the start of their region. -/
theorem based_of_place {pl : Place} (hpl : decode pl.add=some pl)
    (h : TCDM_START_ADDR≤pl.add → pl.add%16=0) : Based pl := by
  obtain ⟨sram,row,lane⟩ := pl
  have hlane := lane.isLt
  cases sram with
  | pri1_sram => rfl
  | interleaved_sram b =>
    have hb := b.isLt
    have hadd : Place.add ⟨.interleaved_sram b,row,lane⟩=0x1C010000+4*(4*row+b)+lane := rfl
    have hlow : TCDM_START_ADDR≤Place.add ⟨.interleaved_sram b,row,lane⟩ := by
      simp only [hadd,TCDM_START_ADDR]
      omega
    have hmod := h hlow
    rw [hadd] at hmod
    show 0x1C010000+4*0x7000*(b : ℕ)=0x1C010000
    omega

/-- The word of a section that starts on words has the row at its address. -/
theorem hits_of_aligned {a len : ℕ} {pl : Place} (hbased : Based pl) (halign : a%4=0)
    (hstart : pl.sram.start≤a) (hlow : a≤pl.add) (hhigh : pl.add<a+len) (hlane : (pl.lane : ℕ)=0) :
    pl.sram.params.Hits a (num_words len) pl.row ∧
      4*pl.sram.params.word_of a pl.row=pl.add-a := by
  have hregion := pl.sram.start_spec.1
  have hbased : pl.sram.params.AddrOffset=pl.sram.start := hbased
  unfold Params.Hits Params.word_of
  unfold Place.add at *
  rw [hbased]
  simp only [num_words,WidthBytes] at *
  omega

/-- A section's word for the row of a place that starts on a counted word starts there. -/
theorem address_of_counted {a words : ℕ} {pl : Place}
    (hhits : pl.sram.params.Hits a words pl.row) (hlane : (pl.lane : ℕ)=0)
    (halign : (a+4*pl.sram.params.word_of a pl.row)%4=0)
    (hmod : TCDM_START_ADDR≤a+4*pl.sram.params.word_of a pl.row →
      (a+4*pl.sram.params.word_of a pl.row)%16=0) :
    a+4*pl.sram.params.word_of a pl.row=pl.add := by
  obtain ⟨slack,hslack,haddr⟩ := Params.address_of_hits hhits
  rw [haddr] at halign hmod ⊢
  obtain ⟨sram,row,lane⟩ := pl
  have hlane : (lane : ℕ)=0 := hlane
  cases sram with
  | interleaved_sram b =>
    have hb := b.isLt
    have hlow : TCDM_START_ADDR≤0x1C010000+4*0x7000*(b : ℕ)+4*(4*row+b)+slack := by
      simp only [TCDM_START_ADDR]
      omega
    have hword := hmod hlow
    have hcount := mod_of_count (r:=row) hb hslack
    have hzero : 4*(b : ℕ)+slack=0 := hcount.symm.trans hword
    show 0x1C010000+4*0x7000*(b : ℕ)+4*(4*row+b)+slack=0x1C010000+4*(4*row+b)+lane
    omega
  | pri1_sram =>
    have halign : (0x1C008000+4*(1*row+0)+slack)%4=0 := halign
    show 0x1C008000+4*(1*row+0)+slack=0x1C008000+4*(1*row+0)+lane
    omega

end Pulpissimo.Cellift.SramMap
