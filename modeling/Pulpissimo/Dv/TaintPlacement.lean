import Pulpissimo.Dv.TaintLoader

/-!
# Where preloading puts the taints of a file

The taints of a file are preloaded rightly if every bit of memory has the taint
that the lines give it together. The modules write the first bit of a word only, so
no line may taint another; the digits of a line are those of the last line at its
address; banks other than the first interleaved one and words off their boundary
go elsewhere; and in the ROM the last section with a word decides. For files in
which no word gets a taint that the buffer kept from another section, this is exact.
-/

namespace Pulpissimo.Dv.TaintPlacement

open Pulpissimo.Machine Pulpissimo.Cellift.SramMap Pulpissimo.Dv.TaintLoader

/-- Bit of a byte of a line. -/
def bit (l : Line) (k b : ℕ) : Bool := (byte_val l.byte_taint_contents k).getLsbD b

/-- The first bit of a byte of the digits in force at a line's address. -/
def given (f : List Line) (k : ℕ) (l : Line) : Bool :=
  (byte_val (digits f l.region_offset) k).getLsbD 0

/-- No section is longer than the buffer, and where one is longer than the digits at its
address, the sections before have no taint at the start of its words. -/
def Fresh (f : List Line) : Prop :=
  ∀ pre l post,f=pre++l::post → l.num_bytes≤ElfLoader.PreloadBufferSize ∧
    ∀ k<l.num_bytes,k%4=0 → (digits f l.region_offset).length/2≤k → ∀ y ∈ pre,given f k y=false

/-- A byte of the ROM, as its word address and its lane. -/
structure RomPlace where
  /-- Word. -/
  row : ℕ
  /-- Byte of the word. -/
  lane : Fin 4

/-- Start of the bridge of the ROM. -/
abbrev ROM_START_ADDR : ℕ := 0x1A000000

/-- End of that bridge. -/
abbrev ROM_END_ADDR : ℕ := 0x1A040000

/-- Byte of the ROM behind an address. The ROM looks at 13 bits of it. -/
def rom_decode (add : ℕ) : Option RomPlace :=
  if ROM_START_ADDR≤add ∧ add<ROM_END_ADDR then some ⟨add%2^13/4,Fin.ofNat 4 add⟩ else none

/-- Taint of a bit of a memory. -/
def sram_bit (mem_taints : Memory → MemTaints) (pl : Place) (b : ℕ) : Bool :=
  (mem_taints (.sram pl.sram)).bit pl.row (8*pl.lane+b)

/-- Taint of a bit of the ROM. -/
def rom_bit (mem_taints : Memory → MemTaints) (pl : RomPlace) (b : ℕ) : Bool :=
  (mem_taints .boot_rom).bit pl.row (8*pl.lane+b)

/-- Every byte of a line has a place, and every bit of a place has the taints that the
lines covering it give it. -/
structure Tainted {π : Type} (f : List Line) (place : ℕ → Option π) (taint : π → ℕ → Bool) :
    Prop where
  /-- Places. -/
  held : ∀ l ∈ f,∀ k<l.num_bytes,∃ pl,place (l.region_offset+k)=some pl
  /-- Taints. -/
  bits : ∀ pl,(∃ a,place a=some pl) → ∀ b<8,(taint pl b=true ↔
    ∃ l ∈ f,∃ k<l.num_bytes,place (l.region_offset+k)=some pl ∧ bit l k b=true)

/-- Lines for which the taints of the memories are right. -/
structure SramPlaced (f : List Line) : Prop where
  /-- They lie in the memories. -/
  inMap : ∀ l ∈ f,∀ k<l.num_bytes,
    PER_START_ADDR≤l.region_offset+k ∧ l.region_offset+k<TCDM_END_ADDR
  /-- They taint the first bit of words, of the interleaved ones those of bank 0. -/
  first : ∀ l ∈ f,∀ k<l.num_bytes,∀ b<8,bit l k b=true →
    b=0 ∧ (l.region_offset+k)%4=0 ∧
      (TCDM_START_ADDR≤l.region_offset+k → (l.region_offset+k)%16=0)
  /-- A line that is the last at its address, on a word and in the same region, taints as well. -/
  kept : ∀ l ∈ f,∀ k<l.num_bytes,bit l k 0=true → ∃ y ∈ f,inForce f y.region_offset=some y ∧
    y.region_offset%4=0 ∧ y.region_offset≤l.region_offset+k ∧
      l.region_offset+k<y.region_offset+y.num_bytes ∧
        bit y (l.region_offset+k-y.region_offset) 0=true ∧
          (TCDM_START_ADDR≤l.region_offset+k → TCDM_START_ADDR≤y.region_offset)

/-- The section of a line has a word that is stored in the word of an address. -/
def HasWord (w : ℕ) (l : Line) : Prop :=
  l.region_offset/4≤w/4 ∧ w/4<l.region_offset/4+num_words l.num_bytes

instance (w : ℕ) (l : Line) : Decidable (HasWord w l) := instDecidableAnd

/-- Lines for which the taints of the ROM are right. -/
structure RomPlaced (f : List Line) : Prop where
  /-- They lie in the ROM. -/
  inMap : ∀ l ∈ f,∀ k<l.num_bytes,
    ROM_START_ADDR≤l.region_offset+k ∧ l.region_offset+k<ROM_END_ADDR
  /-- They taint the first bit of words. -/
  first : ∀ l ∈ f,∀ k<l.num_bytes,∀ b<8,bit l k b=true → b=0 ∧ (l.region_offset+k)%4=0
  /-- The last section with the word taints it, by the digits in force at its address. -/
  kept : ∀ l ∈ f,∀ k<l.num_bytes,bit l k 0=true →
    ∃ pre y post,f=pre++y::post ∧
      HasWord (ROM_START_ADDR+(l.region_offset+k)%2^13) y ∧
        (∀ z ∈ post,¬HasWord (ROM_START_ADDR+(l.region_offset+k)%2^13) z) ∧
          y.region_offset%4=0 ∧
            given f (ROM_START_ADDR+(l.region_offset+k)%2^13-y.region_offset) y=true

section Bits

theorem byte_val_of_length {s : List Char} {n k : ℕ} (h : s.length=2*n) (hk : n≤k) :
    byte_val s k=0#8 := by
  have hdigit : ∀ i,2*k ≤ i → digit s i=0 := by
    intro i hi
    rw [digit,List.getElem?_eq_none (by omega)]
    rfl
  rw [byte_val,hdigit _ (Nat.le_refl _),hdigit _ (Nat.le_succ _)]
  rfl

/-- Digits in force are those of a line at the address. -/
theorem digits_eq {f : List Line} {a : ℕ} {k : Line} (h : inForce f a=some k) :
    digits f a=k.byte_taint_contents := by
  rw [digits,h]
  rfl

theorem given_eq_bit {f : List Line} {l y : Line} (h : inForce f l.region_offset=some y) (k : ℕ) :
    given f k l=bit y k 0 := by
  rw [given,digits_eq h,bit]

/-- A tainted byte lies in the line. -/
theorem lt_of_bit {l : Line} {k b : ℕ} (h : bit l k b=true) : k<l.num_bytes := by
  by_contra hk
  rw [bit,byte_val_of_length l.length_eq (Nat.le_of_not_lt hk)] at h
  rw [BitVec.getLsbD_zero] at h
  exact absurd h Bool.false_ne_true

variable {merge : Bool → Bool → Bool} {p : Params} {assignments : ℕ → List Char} {f : List Line}

theorem loaded_concat (xs : List Line) (l : Line) :
    loaded merge p assignments (xs++[l])=
      load_section merge p assignments 0 (loaded merge p assignments xs)
        (l.region_offset,l.num_bytes) :=
  List.foldl_concat _ _ _ _

/-- A taint in the buffer was given by some section before. -/
theorem buffer_source (hdigits : ∀ l ∈ f,assignments l.region_offset=digits f l.region_offset)
    {xs : List Line} (hxs : ∀ l ∈ xs,l ∈ f) {k : ℕ}
    (h : ((loaded merge p assignments xs).buffer k).getLsbD 0=true) :
    ∃ y ∈ xs,given f k y=true := by
  induction xs using List.reverseRecOn with
  | nil =>
    rw [show (loaded merge p assignments []).buffer k=0#8 from rfl,BitVec.getLsbD_zero] at h
    exact absurd h Bool.false_ne_true
  | append_singleton xs l ih =>
    have hl := List.mem_append_right xs (List.mem_singleton_self l)
    rw [loaded_concat] at h
    have hbuffer : (load_section merge p assignments 0 (loaded merge p assignments xs)
        (l.region_offset,l.num_bytes)).buffer k=
          if k<(digits f l.region_offset).length/2 then byte_val (digits f l.region_offset) k
          else (loaded merge p assignments xs).buffer k := by
      show (if k<(assignments l.region_offset).length/2 then _ else _)=_
      rw [hdigits l (hxs l hl)]
    rw [hbuffer] at h
    by_cases hk : k<(digits f l.region_offset).length/2
    · rw [if_pos hk] at h
      exact ⟨l,hl,h⟩
    · rw [if_neg hk] at h
      rcases ih (fun z hz => hxs z (List.mem_append_left _ hz)) h with ⟨y,hy,hgiven⟩
      exact ⟨y,List.mem_append_left _ hy,hgiven⟩

/-- The first bit of a word of a section, as the buffer has it then. -/
theorem word_given (hdigits : ∀ l ∈ f,assignments l.region_offset=digits f l.region_offset)
    (hfresh : Fresh f) {pre post : List Line} {l : Line} (h : f=pre++l::post) {i : ℕ}
    (hi : 4*i<l.num_bytes) :
    (ElfLoader.word (loaded merge p assignments (pre++[l])).buffer i 0).getLsbD 0=
      given f (4*i) l := by
  obtain ⟨hsize,hclean⟩ := hfresh pre l post h
  have hl : l ∈ f := by
    rw [h]
    exact List.mem_append_right _ List.mem_cons_self
  have hindex : i*WidthBytes+((0 : Fin 4) : ℕ)=4*i := Nat.mul_comm i 4
  unfold ElfLoader.word
  rw [hindex,if_pos (Nat.lt_of_lt_of_le hi hsize),loaded_concat]
  show (if 4*i<(assignments l.region_offset).length/2 then _
    else (loaded merge p assignments pre).buffer (4*i)).getLsbD 0=_
  rw [hdigits l hl]
  by_cases hk : 4*i<(digits f l.region_offset).length/2
  · rw [if_pos hk]
    rfl
  · rw [if_neg hk]
    rcases exists_inForce hl with ⟨y,-,hy,-⟩
    have hlen := y.length_eq
    rw [digits_eq hy] at hk
    have hnone : given f (4*i) l=false := by
      rw [given,digits_eq hy,byte_val_of_length hlen (by omega),BitVec.getLsbD_zero]
    rw [hnone]
    by_contra hbit
    have hbit := Bool.eq_true_of_not_eq_false hbit
    have hpre : ∀ z ∈ pre,z ∈ f := fun z hz => by
      rw [h]
      exact List.mem_append_left _ hz
    rcases buffer_source hdigits hpre hbit with ⟨z,hz,hgiven⟩
    have hfalse := hclean (4*i) hi (by omega) (by
      rw [digits_eq hy]
      omega) z hz
    rw [hfalse] at hgiven
    exact absurd hgiven Bool.false_ne_true

/-- Only the first bit of a word is ever tainted. -/
theorem other_bits (xs : List Line) {r j : ℕ} (hj : j≠0) :
    (loaded merge p assignments xs).mem_taints.bit r j=false := by
  induction xs using List.reverseRecOn with
  | nil => exact BitVec.getLsbD_zero
  | append_singleton xs l ih =>
    rw [loaded_concat,other_load_section assignments _ l.end_le hj]
    exact ih

/-- The section of a line has a word for the row. -/
def Wants (p : Params) (r : ℕ) (l : Line) : Prop :=
  p.Hits l.region_offset (num_words l.num_bytes) r

/-- The first bit of a row after one more section. -/
theorem bit_concat (merge : Bool → Bool → Bool)
    (hdigits : ∀ l ∈ f,assignments l.region_offset=digits f l.region_offset)
    (hfresh : Fresh f) (hb : p.BankId<p.NumBanks) {pre post : List Line} {l : Line}
    (h : f=pre++l::post) (r : ℕ) :
    (Wants p r l → (loaded merge p assignments (pre++[l])).mem_taints.bit r 0=
      merge ((loaded merge p assignments pre).mem_taints.bit r 0)
        (given f (4*p.word_of l.region_offset r) l)) ∧
      (¬Wants p r l → (loaded merge p assignments (pre++[l])).mem_taints.bit r 0=
        (loaded merge p assignments pre).mem_taints.bit r 0) := by
  have hload := bit_load_section (t:=0) merge hb assignments (loaded merge p assignments pre)
    (x:=(l.region_offset,l.num_bytes)) l.end_le r
  constructor
  · intro hwants
    have hwants : p.Hits l.region_offset (num_words l.num_bytes) r := hwants
    have hgiven : (ElfLoader.word (loaded merge p assignments (pre++[l])).buffer
        (p.word_of l.region_offset r) 0).getLsbD 0=_ :=
      word_given hdigits hfresh h (Params.word_of_lt hwants)
    rw [loaded_concat] at hgiven ⊢
    refine hload.trans ?_
    rw [if_pos hwants,hgiven]
    rfl
  · intro hwants
    have hwants : ¬p.Hits l.region_offset (num_words l.num_bytes) r := hwants
    rw [loaded_concat]
    refine hload.trans ?_
    rw [if_neg hwants]
    rfl

end Bits

section Memories

variable {p : Params} {assignments : ℕ → List Char} {f : List Line}

/-- A memory adds up the sections with a word for the row. -/
theorem sram_row (hdigits : ∀ l ∈ f,assignments l.region_offset=digits f l.region_offset)
    (hfresh : Fresh f) (hb : p.BankId<p.NumBanks) {pre post : List Line} (h : f=pre++post) (r : ℕ) :
    (loaded (fun old new => old || new) p assignments pre).mem_taints.bit r 0=true ↔
      ∃ l ∈ pre,Wants p r l ∧ given f (4*p.word_of l.region_offset r) l=true := by
  induction pre using List.reverseRecOn generalizing post with
  | nil =>
    constructor
    · intro hbit
      exact absurd hbit (by
        rw [show MemTaints.bit _ r 0=(0#32).getLsbD 0 from rfl,BitVec.getLsbD_zero]
        exact Bool.false_ne_true)
    · rintro ⟨l,hl,-⟩
      exact absurd hl List.not_mem_nil
  | append_singleton pre l ih =>
    rw [List.append_assoc,List.singleton_append] at h
    have hprev := ih h
    obtain ⟨hhit,hmiss⟩ := bit_concat (fun old new => old || new) hdigits hfresh hb h r
    by_cases hwants : Wants p r l
    · rw [hhit hwants,Bool.or_eq_true,hprev]
      constructor
      · rintro (⟨y,hy,hyw⟩ | hgiven)
        · exact ⟨y,List.mem_append_left _ hy,hyw⟩
        · exact ⟨l,List.mem_append_right _ (List.mem_singleton_self l),hwants,hgiven⟩
      · rintro ⟨y,hy,hyw⟩
        rcases List.mem_append.mp hy with hy | hy
        · exact Or.inl ⟨y,hy,hyw⟩
        · rw [List.mem_singleton.mp hy] at hyw
          exact Or.inr hyw.2
    · rw [hmiss hwants,hprev]
      constructor
      · rintro ⟨y,hy,hyw⟩
        exact ⟨y,List.mem_append_left _ hy,hyw⟩
      · rintro ⟨y,hy,hyw⟩
        rcases List.mem_append.mp hy with hy | hy
        · exact ⟨y,hy,hyw⟩
        · rw [List.mem_singleton.mp hy] at hyw
          exact absurd hyw.1 hwants

/-- In the ROM, the last section with a word for the row decides. -/
theorem rom_row (hdigits : ∀ l ∈ f,assignments l.region_offset=digits f l.region_offset)
    (hfresh : Fresh f) (hb : p.BankId<p.NumBanks) {pre post : List Line} (h : f=pre++post) (r : ℕ) :
    (loaded (fun _ new => new) p assignments pre).mem_taints.bit r 0=true ↔
      ∃ front l back,pre=front++l::back ∧ Wants p r l ∧ (∀ y ∈ back,¬Wants p r y) ∧
        given f (4*p.word_of l.region_offset r) l=true := by
  induction pre using List.reverseRecOn generalizing post with
  | nil =>
    constructor
    · intro hbit
      exact absurd hbit (by
        rw [show MemTaints.bit _ r 0=(0#32).getLsbD 0 from rfl,BitVec.getLsbD_zero]
        exact Bool.false_ne_true)
    · rintro ⟨front,l,back,hnil,-⟩
      exact absurd hnil.symm (List.append_ne_nil_of_right_ne_nil _ (List.cons_ne_nil _ _))
  | append_singleton pre l ih =>
    rw [List.append_assoc,List.singleton_append] at h
    have hprev := ih h
    obtain ⟨hhit,hmiss⟩ := bit_concat (fun _ new => new) hdigits hfresh hb h r
    by_cases hwants : Wants p r l
    · rw [hhit hwants]
      constructor
      · intro hgiven
        exact ⟨pre,l,[],rfl,hwants,fun y hy => absurd hy List.not_mem_nil,hgiven⟩
      · rintro ⟨front,y,back,hsplit,hyw,hback,hgiven⟩
        rcases List.eq_nil_or_concat back with hnil | ⟨back',z,hz⟩
        · rw [hnil] at hsplit
          have hlast := List.append_inj_right' hsplit rfl
          rw [(List.cons.inj hlast).1]
          exact hgiven
        · have hzl : l=z := by
            rw [hz,List.concat_eq_append,←List.cons_append,←List.append_assoc] at hsplit
            exact (List.cons.inj (List.append_inj_right' hsplit rfl)).1
          refine absurd hwants (hback l ?_)
          rw [hz,hzl,List.concat_eq_append]
          exact List.mem_append_right _ (List.mem_singleton_self z)
    · rw [hmiss hwants,hprev]
      constructor
      · rintro ⟨front,y,back,hsplit,hyw,hback,hgiven⟩
        refine ⟨front,y,back++[l],by rw [hsplit,List.append_assoc,List.cons_append],hyw,?_,hgiven⟩
        intro z hz
        rcases List.mem_append.mp hz with hz | hz
        · exact hback z hz
        · rw [List.mem_singleton.mp hz]
          exact hwants
      · rintro ⟨front,y,back,hsplit,hyw,hback,hgiven⟩
        rcases List.eq_nil_or_concat back with hnil | ⟨back',z,hz⟩
        · rw [hnil] at hsplit
          have hlast := List.append_inj_right' hsplit rfl
          rw [(List.cons.inj hlast).1] at hwants
          exact absurd hyw hwants
        · rw [hz,List.concat_eq_append,←List.cons_append,←List.append_assoc] at hsplit
          have hfront := List.append_inj_left' hsplit rfl
          refine ⟨front,y,back',hfront,hyw,fun u hu => hback u ?_,hgiven⟩
          rw [hz,List.concat_eq_append]
          exact List.mem_append_left _ hu

end Memories

section SramTaints

variable {order : Order} {fs : Files}

/-- Which bits of the memories are tainted. -/
theorem sram_bit_iff (hfresh : Fresh fs.sram) {pl : Place} {b : ℕ} (hb : b<8) :
    sram_bit (initialise order fs) pl b=true ↔ ((pl.lane : ℕ)=0 ∧ b=0) ∧
      ∃ l ∈ fs.sram,Wants pl.sram.params pl.row l ∧
        given fs.sram (4*pl.sram.params.word_of l.region_offset pl.row) l=true := by
  obtain ⟨assignments,hmem,hdigits⟩ :=
    (boot_after fs order.memories).2 (.sram pl.sram) (order.all (.sram pl.sram))
  have hmem : initialise order fs (.sram pl.sram)=_ := hmem
  unfold sram_bit
  rw [hmem]
  by_cases hfirst : (pl.lane : ℕ)=0 ∧ b=0
  · have hzero : 8*(pl.lane : ℕ)+b=0 := by omega
    rw [hzero,and_iff_right hfirst]
    exact sram_row hdigits hfresh pl.sram.bankId_lt (List.append_nil fs.sram).symm pl.row
  · have hne : 8*(pl.lane : ℕ)+b≠0 := by omega
    rw [other_bits _ hne]
    exact ⟨fun h => absurd h Bool.false_ne_true,fun h => absurd h.1 hfirst⟩

/-- A taint by the digits in force is one of a line of the file. -/
theorem exists_of_given {f : List Line} {l : Line} (hl : l ∈ f) {k : ℕ} (h : given f k l=true) :
    ∃ y ∈ f,inForce f y.region_offset=some y ∧ y.region_offset=l.region_offset ∧
      k<y.num_bytes ∧ bit y k 0=true := by
  rcases exists_inForce hl with ⟨y,hy,hforce,haddr⟩
  rw [given_eq_bit hforce] at h
  rw [←haddr] at hforce
  exact ⟨y,hy,hforce,haddr,lt_of_bit h,h⟩

section Necessary

variable (hfresh : Fresh fs.sram)
  (ht : Tainted fs.sram decode (sram_bit (initialise order fs)))
include hfresh ht

/-- What is behind a taint of a line. -/
theorem sram_taint {l : Line} (hl : l ∈ fs.sram) {k b : ℕ} (hb : b<8) (hbit : bit l k b=true) :
    ∃ pl,decode (l.region_offset+k)=some pl ∧ ((pl.lane : ℕ)=0 ∧ b=0) ∧
      ∃ x ∈ fs.sram,Wants pl.sram.params pl.row x ∧
        given fs.sram (4*pl.sram.params.word_of x.region_offset pl.row) x=true := by
  have hk := lt_of_bit hbit
  rcases ht.held l hl k hk with ⟨pl,hpl⟩
  have htaint := (ht.bits pl ⟨_,hpl⟩ b hb).mpr ⟨l,hl,k,hk,hpl,hbit⟩
  exact ⟨pl,hpl,(sram_bit_iff hfresh hb).mp htaint⟩

/-- No taint lies in another interleaved bank: the highest would come from a line
that taints a higher one. -/
theorem based_of_taint {l : Line} (hl : l ∈ fs.sram) {k : ℕ} (hbit : bit l k 0=true) {pl : Place}
    (hpl : decode (l.region_offset+k)=some pl) : Based pl := by
  induction hn : TCDM_END_ADDR-pl.add using Nat.strong_induction_on generalizing l k pl with
  | _ n ih =>
    by_contra hbased
    have hadd := ((decode_eq_some_iff).mp hpl).1
    obtain ⟨pl',hpl',-,x,hx,hwants,hgiven⟩ := sram_taint hfresh ht hl (by decide) hbit
    rw [hpl] at hpl'
    rw [←Option.some_inj.mp hpl'] at hwants hgiven
    rcases exists_of_given hx hgiven with ⟨y,hy,-,haddr,-,hyBit⟩
    obtain ⟨hup,hother⟩ := further_up hbased hwants
    obtain ⟨q,hq,-⟩ := sram_taint hfresh ht hy (by decide) hyBit
    have hqx := hq
    rw [haddr] at hqx
    have hqadd := ((decode_eq_some_iff).mp hqx).1
    have hqend := (decode_bounds hqx).2
    exact hother q hqx (ih _ (by omega) hy hyBit hq rfl)

/-- Files whose taints are right are placed. -/
theorem sramPlaced_of_tainted : SramPlaced fs.sram := by
  have hfirst : ∀ l ∈ fs.sram,∀ k<l.num_bytes,∀ b<8,bit l k b=true →
      b=0 ∧ (l.region_offset+k)%4=0 ∧
        (TCDM_START_ADDR≤l.region_offset+k → (l.region_offset+k)%16=0) := by
    intro l hl k _ b hb hbit
    obtain ⟨pl,hpl,⟨hlane,hb0⟩,-⟩ := sram_taint hfresh ht hl hb hbit
    rw [hb0] at hbit
    have hbased := based_of_taint hfresh ht hl hbit hpl
    have hadd := ((decode_eq_some_iff).mp hpl).1
    have hstart := pl.sram.start_spec.1
    have halign : (l.region_offset+k)%4=0 := by
      rw [hadd,Place.add,hlane]
      omega
    refine ⟨hb0,halign,fun h => ?_⟩
    have hmod := mod_of_based hpl hbased h
    omega
  refine ⟨fun l hl k hk => ?_,hfirst,fun l hl k hk hbit => ?_⟩
  · rcases ht.held l hl k hk with ⟨pl,hpl⟩
    exact decode_bounds hpl
  · obtain ⟨pl,hpl,⟨hlane,-⟩,x,hx,hwants,hgiven⟩ := sram_taint hfresh ht hl (by decide) hbit
    obtain ⟨hadd,hstop⟩ := (decode_eq_some_iff).mp hpl
    rcases exists_of_given hx hgiven with ⟨y,hy,hforce,haddr,hlt,hyBit⟩
    obtain ⟨-,halign,hmod⟩ := hfirst y hy _ hlt 0 (by decide) hyBit
    rw [haddr] at halign hmod
    have hsame := address_of_counted hwants hlane halign hmod
    refine ⟨y,hy,hforce,?_,?_,?_,?_,fun h => ?_⟩
    · omega
    · omega
    · omega
    · rw [hadd,←hsame,haddr,Nat.add_sub_cancel_left]
      exact hyBit
    · have hle := hwants.1
      rw [haddr]
      refine Nat.le_trans ?_ hle
      cases hsram : pl.sram with
      | interleaved_sram c =>
        show 0x1C010000≤0x1C010000+4*0x7000*(c : ℕ)
        omega
      | pri1_sram =>
        rw [hsram] at hstop
        exact absurd hstop (Nat.not_lt.mpr h)

end Necessary

/-- Placed lines have the right taints. -/
theorem sramTainted_of_placed (hfresh : Fresh fs.sram) (hp : SramPlaced fs.sram) :
    Tainted fs.sram decode (sram_bit (initialise order fs)) := by
  refine ⟨fun l hl k hk => ?_,fun pl hreach b hb => ?_⟩
  · obtain ⟨hlow,hhigh⟩ := hp.inMap l hl k hk
    exact exists_decode hlow hhigh
  · obtain ⟨a,ha⟩ := hreach
    have hadd := ((decode_eq_some_iff).mp ha).1
    rw [hadd] at ha
    rw [sram_bit_iff hfresh hb]
    constructor
    · rintro ⟨⟨hlane,hb0⟩,x,hx,hwants,hgiven⟩
      rcases exists_of_given hx hgiven with ⟨y,hy,-,haddr,hlt,hyBit⟩
      obtain ⟨-,halign,hmod⟩ := hp.first y hy _ hlt 0 (by decide) hyBit
      rw [haddr] at halign hmod
      refine ⟨y,hy,_,hlt,?_,by rw [hb0]; exact hyBit⟩
      rw [haddr,address_of_counted hwants hlane halign hmod]
      exact ha
    · rintro ⟨l,hl,k,hk,hpl,hbit⟩
      obtain ⟨hb0,halign,hmod⟩ := hp.first l hl k hk b hb hbit
      rw [hb0] at hbit
      obtain ⟨y,hy,hforce,hyAlign,hlow,hhigh,hyBit,hregion⟩ := hp.kept l hl k hk hbit
      have hsame := ((decode_eq_some_iff).mp hpl).1
      rw [hsame] at halign hmod hlow hhigh hyBit hregion
      have hbased := based_of_place ha hmod
      have hstart := pl.sram.start_spec.1
      have hlane : (pl.lane : ℕ)=0 := by
        have hlt := pl.lane.isLt
        unfold Place.add at halign
        omega
      have hfrom : pl.sram.start≤y.region_offset := by
        have hyLow := (hp.inMap y hy 0 (by omega)).1
        cases hsram : pl.sram with
        | interleaved_sram c =>
          refine hregion ?_
          unfold Place.add
          rw [hsram]
          show 0x1C010000≤0x1C010000+_+_
          omega
        | pri1_sram => exact hyLow
      obtain ⟨hwants,hword⟩ := hits_of_aligned hbased hyAlign hfrom hlow hhigh hlane
      refine ⟨⟨hlane,hb0⟩,y,hy,hwants,?_⟩
      rw [given_eq_bit hforce,hword]
      exact hyBit

end SramTaints

section RomTaints

variable {order : Order} {fs : Files}

/-- Which bits of the ROM are tainted. -/
theorem rom_bit_iff (hfresh : Fresh fs.boot_rom) {pl : RomPlace} {b : ℕ} (hb : b<8) :
    rom_bit (initialise order fs) pl b=true ↔ ((pl.lane : ℕ)=0 ∧ b=0) ∧
      ∃ pre l post,fs.boot_rom=pre++l::post ∧ Wants Memory.boot_rom.params pl.row l ∧
        (∀ y ∈ post,¬Wants Memory.boot_rom.params pl.row y) ∧
          given fs.boot_rom (4*Memory.boot_rom.params.word_of l.region_offset pl.row) l=true := by
  obtain ⟨assignments,hmem,hdigits⟩ :=
    (boot_after fs order.memories).2 .boot_rom (order.all .boot_rom)
  have hmem : initialise order fs .boot_rom=_ := hmem
  unfold rom_bit
  rw [hmem]
  by_cases hfirst : (pl.lane : ℕ)=0 ∧ b=0
  · have hzero : 8*(pl.lane : ℕ)+b=0 := by omega
    rw [hzero,and_iff_right hfirst]
    exact rom_row hdigits hfresh Nat.one_pos (List.append_nil fs.boot_rom).symm pl.row
  · have hne : 8*(pl.lane : ℕ)+b≠0 := by omega
    rw [other_bits _ hne]
    exact ⟨fun h => absurd h Bool.false_ne_true,fun h => absurd h.1 hfirst⟩

theorem rom_decode_eq_some_iff {a : ℕ} {pl : RomPlace} :
    rom_decode a=some pl ↔ (ROM_START_ADDR≤a ∧ a<ROM_END_ADDR) ∧
      a%2^13=4*pl.row+pl.lane := by
  obtain ⟨row,lane⟩ := pl
  have hlane := lane.isLt
  have hlane_iff : Fin.ofNat 4 a=lane ↔ a%4=lane := Fin.ext_iff
  unfold rom_decode
  by_cases h : ROM_START_ADDR≤a ∧ a<ROM_END_ADDR
  · rw [if_pos h,and_iff_right h]
    simp only [Option.some.injEq,RomPlace.mk.injEq,hlane_iff]
    omega
  · rw [if_neg h]
    exact ⟨fun hnone => (Option.noConfusion rfl (heq_of_eq hnone)),fun hall => absurd hall.1 h⟩

/-- A line in the ROM has a word for the row of an address if its words reach there. -/
theorem rom_wants_iff {l : Line} (hin : 0<l.num_bytes → ROM_START_ADDR≤l.region_offset) {w r : ℕ}
    (hw : w=ROM_START_ADDR+4*r) :
    Wants Memory.boot_rom.params r l ↔ HasWord w l := by
  unfold Wants Params.Hits HasWord
  by_cases hpos : 0<l.num_bytes
  · have hle : 0x1A000000≤l.region_offset := hin hpos
    have hw : w=0x1A000000+4*r := hw
    show (0x1A000000≤l.region_offset ∧ (l.region_offset-0x1A000000)/4≤1*r+0 ∧
      1*r+0<(l.region_offset-0x1A000000)/4+num_words l.num_bytes) ↔ _
    omega
  · have hnone : num_words l.num_bytes=0 := by
      simp only [num_words,WidthBytes]
      omega
    rw [hnone]
    constructor
    · rintro ⟨-,hlow,hhigh⟩
      omega
    · rintro ⟨hlow,hhigh⟩
      omega

/-- The number of the word, for a line on a word. -/
theorem rom_word_of {l : Line} (halign : l.region_offset%4=0) {w r : ℕ}
    (hw : w=ROM_START_ADDR+4*r) (hwants : Wants Memory.boot_rom.params r l) :
    4*Memory.boot_rom.params.word_of l.region_offset r=w-l.region_offset := by
  obtain ⟨hle,hlow,hhigh⟩ := hwants
  have hle : 0x1A000000≤l.region_offset := hle
  have hlow : (l.region_offset-0x1A000000)/4≤1*r+0 := hlow
  have hw : w=0x1A000000+4*r := hw
  show 4*(1*r+0-(l.region_offset-0x1A000000)/4)=w-l.region_offset
  omega

/-- Where a word of a line lands that is tainted by a line on words. -/
theorem rom_address {l : Line} {r : ℕ} (hwants : Wants Memory.boot_rom.params r l)
    (halign : (l.region_offset+4*Memory.boot_rom.params.word_of l.region_offset r)%4=0) :
    l.region_offset+4*Memory.boot_rom.params.word_of l.region_offset r=ROM_START_ADDR+4*r := by
  obtain ⟨slack,hslack,haddr⟩ := Params.address_of_hits hwants
  rw [haddr] at halign ⊢
  have halign : (0x1A000000+4*(1*r+0)+slack)%4=0 := halign
  show 0x1A000000+4*(1*r+0)+slack=0x1A000000+4*r
  omega

/-- Files whose taints are right are placed. -/
theorem romPlaced_of_tainted (hfresh : Fresh fs.boot_rom)
    (ht : Tainted fs.boot_rom rom_decode (rom_bit (initialise order fs))) :
    RomPlaced fs.boot_rom := by
  have htaint : ∀ l ∈ fs.boot_rom,∀ k b,b<8 → bit l k b=true →
      ∃ pl,rom_decode (l.region_offset+k)=some pl ∧ ((pl.lane : ℕ)=0 ∧ b=0) ∧
        ∃ pre y post,fs.boot_rom=pre++y::post ∧ Wants Memory.boot_rom.params pl.row y ∧
          (∀ z ∈ post,¬Wants Memory.boot_rom.params pl.row z) ∧
            given fs.boot_rom (4*Memory.boot_rom.params.word_of y.region_offset pl.row) y=true := by
    intro l hl k b hb hbit
    have hk := lt_of_bit hbit
    rcases ht.held l hl k hk with ⟨pl,hpl⟩
    have hset := (ht.bits pl ⟨_,hpl⟩ b hb).mpr ⟨l,hl,k,hk,hpl,hbit⟩
    exact ⟨pl,hpl,(rom_bit_iff hfresh hb).mp hset⟩
  have hinMap : ∀ l ∈ fs.boot_rom,∀ k<l.num_bytes,
      ROM_START_ADDR≤l.region_offset+k ∧ l.region_offset+k<ROM_END_ADDR := by
    intro l hl k hk
    rcases ht.held l hl k hk with ⟨pl,hpl⟩
    exact (rom_decode_eq_some_iff.mp hpl).1
  have hfirst : ∀ l ∈ fs.boot_rom,∀ k<l.num_bytes,∀ b<8,bit l k b=true →
      b=0 ∧ (l.region_offset+k)%4=0 := by
    intro l hl k _ b hb hbit
    obtain ⟨pl,hpl,⟨hlane,hb0⟩,-⟩ := htaint l hl k b hb hbit
    have hmod := (rom_decode_eq_some_iff.mp hpl).2
    exact ⟨hb0,by omega⟩
  refine ⟨hinMap,hfirst,fun l hl k hk hbit => ?_⟩
  obtain ⟨pl,hpl,⟨hlane,-⟩,pre,y,post,hsplit,hwants,hpost,hgiven⟩ :=
    htaint l hl k 0 (by decide) hbit
  have hmod := (rom_decode_eq_some_iff.mp hpl).2
  have hw : ROM_START_ADDR+(l.region_offset+k)%2^13=ROM_START_ADDR+4*pl.row := by
    rw [hmod,hlane,Nat.add_zero]
  have hmem : ∀ z ∈ y::post,z ∈ fs.boot_rom := by
    intro z hz
    rw [hsplit]
    exact List.mem_append_right _ hz
  have hwants_iff : ∀ z ∈ y::post,
      (Wants Memory.boot_rom.params pl.row z ↔
        HasWord (ROM_START_ADDR+(l.region_offset+k)%2^13) z) := by
    intro z hz
    exact rom_wants_iff (fun hpos => (hinMap z (hmem z hz) 0 hpos).1) hw
  rcases exists_of_given (hmem y List.mem_cons_self) hgiven with ⟨x,hx,-,haddr,hlt,hxBit⟩
  have halign := (hfirst x hx _ hlt 0 (by decide) hxBit).2
  rw [haddr] at halign
  have hyAlign : y.region_offset%4=0 := by omega
  refine ⟨pre,y,post,hsplit,(hwants_iff y List.mem_cons_self).mp hwants,fun z hz hword =>
    hpost z hz ((hwants_iff z (List.mem_cons_of_mem y hz)).mpr hword),hyAlign,?_⟩
  rw [←rom_word_of hyAlign hw hwants]
  exact hgiven

/-- Placed lines have the right taints. -/
theorem romTainted_of_placed (hfresh : Fresh fs.boot_rom) (hp : RomPlaced fs.boot_rom) :
    Tainted fs.boot_rom rom_decode (rom_bit (initialise order fs)) := by
  refine ⟨fun l hl k hk => ?_,fun pl hreach b hb => ?_⟩
  · exact ⟨_,if_pos (hp.inMap l hl k hk)⟩
  · obtain ⟨a,ha⟩ := hreach
    have hrow := (rom_decode_eq_some_iff.mp ha).2
    rw [rom_bit_iff hfresh hb]
    constructor
    · rintro ⟨⟨hlane,hb0⟩,pre,y,post,hsplit,hwants,-,hgiven⟩
      have hy : y ∈ fs.boot_rom := by
        rw [hsplit]
        exact List.mem_append_right _ List.mem_cons_self
      rcases exists_of_given hy hgiven with ⟨x,hx,-,haddr,hlt,hxBit⟩
      have halign := (hp.first x hx _ hlt 0 (by decide) hxBit).2
      have hbounds := hp.inMap x hx _ hlt
      rw [haddr] at halign hbounds
      have hsame := rom_address hwants halign
      refine ⟨x,hx,_,hlt,?_,by rw [hb0]; exact hxBit⟩
      rw [haddr,rom_decode_eq_some_iff]
      refine ⟨hbounds,?_⟩
      rw [hsame]
      simp only [ROM_START_ADDR]
      omega
    · rintro ⟨l,hl,k,hk,hpl,hbit⟩
      obtain ⟨hb0,halign⟩ := hp.first l hl k hk b hb hbit
      rw [hb0] at hbit
      have hmod := (rom_decode_eq_some_iff.mp hpl).2
      have hlt := pl.lane.isLt
      have hlane : (pl.lane : ℕ)=0 := by omega
      have hw : ROM_START_ADDR+(l.region_offset+k)%2^13=ROM_START_ADDR+4*pl.row := by
        rw [hmod,hlane,Nat.add_zero]
      obtain ⟨pre,y,post,hsplit,hword,hpost,hyAlign,hgiven⟩ := hp.kept l hl k hk hbit
      have hmem : ∀ z ∈ y::post,z ∈ fs.boot_rom := by
        intro z hz
        rw [hsplit]
        exact List.mem_append_right _ hz
      have hwants_iff : ∀ z ∈ y::post,
          (Wants Memory.boot_rom.params pl.row z ↔
            HasWord (ROM_START_ADDR+(l.region_offset+k)%2^13) z) := by
        intro z hz
        exact rom_wants_iff (fun hpos => (hp.inMap z (hmem z hz) 0 hpos).1) hw
      have hwants := (hwants_iff y List.mem_cons_self).mpr hword
      refine ⟨⟨hlane,hb0⟩,pre,y,post,hsplit,hwants,fun z hz hz' =>
        hpost z hz ((hwants_iff z (List.mem_cons_of_mem y hz)).mp hz'),?_⟩
      rw [rom_word_of hyAlign hw hwants]
      exact hgiven

end RomTaints

/-- The instances in the order of their numbers, the ROM last. -/
def byNumber : Order where
  memories := [.sram (.interleaved_sram 0),.sram (.interleaved_sram 1),.sram (.interleaved_sram 2),
    .sram (.interleaved_sram 3),.sram .pri1_sram,.boot_rom]
  all := by
    intro c
    cases c with
    | boot_rom => decide
    | sram c =>
      cases c with
      | pri1_sram => decide
      | interleaved_sram b =>
        revert b
        decide

/-- No section is longer than the buffer or than the digits at its address. -/
theorem fresh_of_fits {f : List Line}
    (h : ∀ l ∈ f,l.num_bytes≤ElfLoader.PreloadBufferSize ∧
      l.num_bytes≤(digits f l.region_offset).length/2) : Fresh f := by
  intro pre l post hsplit
  have hl : l ∈ f := by
    rw [hsplit]
    exact List.mem_append_right _ List.mem_cons_self
  obtain ⟨hsize,hfits⟩ := h l hl
  exact ⟨hsize,fun k hk _ hpast => absurd hpast (by omega)⟩

theorem hex_of_all {s : List Char} (h : s.all (fun c => (char_to_hex c).isSome)=true) :
    ∀ c ∈ s,(char_to_hex c).isSome := List.all_eq_true.mp h

/-- `0 1c008000 4 01000000` and `0 1A000000 4 01000000`. -/
def firstBits : Files where
  sram := [⟨0,0x1C008000,4,['0','1','0','0','0','0','0','0'],hex_of_all rfl,rfl,by decide⟩]
  boot_rom := [⟨0,0x1A000000,4,['0','1','0','0','0','0','0','0'],hex_of_all rfl,rfl,by decide⟩]

/-- `0 1c008000 4 FFFFFFFF`. -/
def wholeWord : Files where
  sram := [⟨0,0x1C008000,4,['F','F','F','F','F','F','F','F'],hex_of_all rfl,rfl,by decide⟩]
  boot_rom := []

end Pulpissimo.Dv.TaintPlacement
