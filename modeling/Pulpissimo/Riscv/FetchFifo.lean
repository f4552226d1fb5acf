import Mathlib.Data.BitVec
import Mathlib.Logic.Function.Basic
import Pulpissimo.Lib.Indices
import Pulpissimo.Lib.ShiftFifo
import Pulpissimo.Lib.WordAddr

/-!
# The RI5CY fetch FIFO

`riscv_fetch_fifo` with its four entries, the bypass of an incoming word, the
aligner for instructions that start in the upper half of a word, and the
replacement of the second entry at the target of a hardware loop. Without
hardware loops its contents are a window of consecutive memory words that
starts at the word of the next instruction.
-/

namespace Pulpissimo.Riscv.FetchFifo

open Pulpissimo.ShiftFifo Pulpissimo.WordAddr

/-- Registers. Index zero is used for output. -/
structure State where
  /-- Addresses. -/
  addr_Q : Fin 4 → BitVec 32
  /-- Words. -/
  rdata_Q : Fin 4 → BitVec 32
  /-- Entries in use. -/
  valid_Q : Fin 4 → Bool
  /-- The first two entries are targets of hardware loops. -/
  is_hwlp_Q : Fin 2 → Bool

/-- Values after reset. -/
def reset : State := ⟨fun _ => 0,fun _ => 0,fun _ => false,fun _ => false⟩

/-- One cycle of inputs. -/
structure Input where
  /-- Clears the contents. -/
  clear_i : Bool
  /-- Address of the incoming word. -/
  in_addr_i : BitVec 32
  /-- Incoming word. -/
  in_rdata_i : BitVec 32
  /-- A word comes in. -/
  in_valid_i : Bool
  /-- Replace the second entry, if there is one. -/
  in_replace2_i : Bool
  /-- The incoming word is the target of a hardware loop. -/
  in_is_hwlp_i : Bool
  /-- The output is taken. -/
  out_ready_i : Bool

section Code

variable (s : State) (i : Input)

/-- First word, stored or incoming. -/
def rdata : BitVec 32 := if s.valid_Q 0 then s.rdata_Q 0 else i.in_rdata_i

/-- There is a first word. -/
def valid : Bool := s.valid_Q 0 || i.in_valid_i || s.is_hwlp_Q 1

/-- Upper half of the first word below the lower half of the second. -/
def rdata_unaligned : BitVec 32 :=
  (if s.valid_Q 1 then s.rdata_Q 1 else i.in_rdata_i).extractLsb' 0 16 ++
    (rdata s i).extractLsb' 16 16

/-- There is a second word. -/
def valid_unaligned : Bool := s.valid_Q 1 || (s.valid_Q 0 && i.in_valid_i)

/-- The upper half of the first word starts a compressed instruction. -/
def unaligned_is_compressed : Bool := (rdata s i).extractLsb' 16 2 != 0b11#2

/-- The lower half of the first word starts a compressed instruction. -/
def aligned_is_compressed : Bool := (rdata s i).extractLsb' 0 2 != 0b11#2

/-- The same for the upper half of the stored word. -/
def unaligned_is_compressed_st : Bool := (s.rdata_Q 0).extractLsb' 16 2 != 0b11#2

/-- Address of the instruction at the output. -/
def out_addr_o : BitVec 32 := if s.valid_Q 0 then s.addr_Q 0 else i.in_addr_i

/-- The instruction at the output is the target of a hardware loop. -/
def out_is_hwlp_o : Bool := if s.valid_Q 0 then s.is_hwlp_Q 0 else i.in_is_hwlp_i

/-- The output starts in the upper half. An instruction before a hardware loop
target is already aligned in entry zero. -/
def unaligned : Bool := (out_addr_o s i).getLsbD 1 && !s.is_hwlp_Q 1

/-- Instruction at the output. -/
def out_rdata_o : BitVec 32 := if unaligned s i then rdata_unaligned s i else rdata s i

/-- The output is valid. -/
def out_valid_o : Bool :=
  if unaligned s i then
    if unaligned_is_compressed s i then valid s i else valid_unaligned s i
  else valid s i

/-- The output would be valid without the incoming word. -/
def out_valid_stored_o : Bool :=
  if unaligned s i then
    if unaligned_is_compressed_st s then true else s.valid_Q 1
  else s.valid_Q 0

/-- A word can be requested. -/
def in_ready_o : Bool := !s.valid_Q 2

/-- Entries after the input port. -/
def input : State :=
  if i.in_valid_i then
    let stored : State := ⟨push s.valid_Q s.addr_Q i.in_addr_i,push s.valid_Q s.rdata_Q i.in_rdata_i,
      push s.valid_Q s.valid_Q true,s.is_hwlp_Q⟩
    if i.in_replace2_i then
      if s.valid_Q 0 then
        ⟨Function.update stored.addr_Q 1 i.in_addr_i,
          Function.update (Function.update stored.rdata_Q 0 (out_rdata_o s i)) 1 i.in_rdata_i,
          fun j => if j=0 then stored.valid_Q 0 else j=1,
          Function.update s.is_hwlp_Q 1 i.in_is_hwlp_i⟩
      else { stored with is_hwlp_Q := Function.update s.is_hwlp_Q 0 i.in_is_hwlp_i }
    else stored
  else s

/-- Address of the word after the first one. -/
def addr_next : BitVec 32 := ((input s i).addr_Q 0).extractLsb' 2 30++0b00#2+4#32

/-- Entries after the output port: everything moves by one entry, unless a
compressed instruction leaves the upper half of its word. -/
def output : State :=
  let t := input s i
  let next (addr : BitVec 32) : State := ⟨Function.update t.addr_Q 0 addr,shift 0#32 t.rdata_Q,
    shift false t.valid_Q,shift false t.is_hwlp_Q⟩
  if i.out_ready_i && out_valid_o s i then
    if t.is_hwlp_Q 1 then next (t.addr_Q 1)
    else if (t.addr_Q 0).getLsbD 1 then
      if unaligned_is_compressed s i then next ((addr_next s i).extractLsb' 2 30++0b00#2)
      else next ((addr_next s i).extractLsb' 2 30++0b10#2)
    else if aligned_is_compressed s i then
      { t with
        addr_Q := Function.update t.addr_Q 0 ((t.addr_Q 0).extractLsb' 2 30++0b10#2)
        is_hwlp_Q := shift false t.is_hwlp_Q }
    else next ((addr_next s i).extractLsb' 2 30++0b00#2)
  else t

/-- One clock edge. -/
def step : State :=
  if i.clear_i then { s with valid_Q := fun _ => false,is_hwlp_Q := fun _ => false }
  else output s i

end Code

/-- Instruction memory as words. -/
abbrev Memory := BitVec 30 → BitVec 32

/-- A halfword starts a compressed instruction. -/
def compressed (h : BitVec 16) : Bool := h.extractLsb' 0 2 != 0b11#2

/-- The halfword at a byte address. -/
def Memory.half (m : Memory) (a : BitVec 32) : BitVec 16 :=
  (m (a.extractLsb' 2 30)).extractLsb' (if a.getLsbD 1 then 16 else 0) 16

/-- Length in bytes of the instruction at an address. -/
def Memory.size (m : Memory) (a : BitVec 32) : BitVec 32 := if compressed (m.half a) then 2 else 4

/-- A word delivers the instruction stored at an address. The upper half means
nothing for a compressed instruction. -/
def Memory.Stores (m : Memory) (a r : BitVec 32) : Prop :=
  r.extractLsb' 0 16=m.half a ∧ (compressed (m.half a)=false → r.extractLsb' 16 16=m.half (a+2))

/-- The address of the lower or upper half of a word. -/
def halfAddr (q : BitVec 30) (upper : Bool) : BitVec 32 := q++(if upper then 0b10#2 else 0b00#2)

section Addresses

variable (q : BitVec 30) (upper : Bool)

@[simp] theorem halfAddr_word : (halfAddr q upper).extractLsb' 2 30=q := wordAddr_append q _

@[simp] theorem halfAddr_bit : (halfAddr q upper).getLsbD 1=upper := by
  unfold halfAddr
  rw [BitVec.getLsbD_append]
  cases upper <;> rfl

theorem halfAddr_add_two :
    halfAddr q upper+2=if upper then halfAddr (q+1) false else halfAddr q true := by
  have hsum := append_add q (if upper then 0b10#2 else 0b00#2) (k := 2) (by decide)
  cases upper with
  | true => exact hsum
  | false => exact hsum

theorem halfAddr_add_four : halfAddr q upper+4=halfAddr (q+1) upper := append_add_four q _

/-- Every even address is one of them. -/
theorem halfAddr_of_even {a : BitVec 32} (ha : a.getLsbD 0=false) :
    ∃ q upper, a=halfAddr q upper := by
  rcases split_addr a with ⟨q,r,rfl⟩
  rw [BitVec.getLsbD_append,if_pos (by decide)] at ha
  rcases lane_cases r with rfl | rfl | rfl | rfl
  · exact ⟨q,false,rfl⟩
  · exact absurd ha (by decide)
  · exact ⟨q,true,rfl⟩
  · exact absurd ha (by decide)

end Addresses

/-- The FIFO holds `n` memory words, starting with the word of the next
instruction, and there is no hardware loop. -/
structure Window (s : State) (m : Memory) (q : BitVec 30) (upper : Bool) (n : ℕ) : Prop where
  /-- No entry is the target of a hardware loop. -/
  no_hwlp : ∀ j, s.is_hwlp_Q j=false
  /-- The words in the entries. -/
  words : Holds s.valid_Q s.rdata_Q (fun k => m (q+BitVec.ofNat 30 k)) n
  /-- The address of entry zero. -/
  addr : 0<n → s.addr_Q 0=halfAddr q upper

/-- What comes in is the next word of the window. -/
structure Feeds (i : Input) (m : Memory) (q : BitVec 30) (upper : Bool) (n : ℕ) : Prop where
  /-- No replacement. -/
  no_replace : i.in_replace2_i=false
  /-- There is room. -/
  room : i.in_valid_i=true → n<4
  /-- The word that follows the window. -/
  word : i.in_valid_i=true → i.in_rdata_i=m (q+BitVec.ofNat 30 n)
  /-- The first word brings the address of the next instruction. -/
  addr : i.in_valid_i=true → n=0 → i.in_addr_i=halfAddr q upper

section Window

variable {s : State} {i : Input} {m : Memory} {q : BitVec 30} {upper : Bool} {n : ℕ}

/-- Words at hand in a cycle. -/
def atHand (i : Input) (n : ℕ) : ℕ := n+i.in_valid_i.toNat

theorem atHand_cases (i : Input) (n : ℕ) :
    i.in_valid_i=true ∧ atHand i n=n+1 ∨ i.in_valid_i=false ∧ atHand i n=n := by
  unfold atHand
  cases i.in_valid_i <;> simp

theorem Window.valid_eq (h : Window s m q upper n) : valid s i=decide (0<atHand i n) := by
  unfold valid
  rw [h.words.taken,h.no_hwlp]
  rcases atHand_cases i n with ⟨hin,hk⟩ | ⟨hin,hk⟩
  · simp [hin,hk]
  · simp [hin,hk]

theorem Window.valid_unaligned_eq (h : Window s m q upper n) :
    valid_unaligned s i=decide (2≤atHand i n) := by
  unfold valid_unaligned
  rw [h.words.taken,h.words.taken]
  rcases atHand_cases i n with ⟨hin,hk⟩ | ⟨hin,hk⟩
  · rw [hin,hk,Bool.and_true,←Bool.decide_or,decide_eq_decide]
    simp
    omega
  · rw [hin,hk,Bool.and_false,Bool.or_false,decide_eq_decide]
    simp
    omega

/-- The first word is the word of the next instruction. -/
theorem Window.rdata_eq (h : Window s m q upper n) (hi : Feeds i m q upper n)
    (hk : 0<atHand i n) : rdata s i=m q := by
  unfold rdata
  rw [h.words.taken]
  by_cases hn : 0<n
  · have hword := h.words.value 0 hn
    simpa [hn] using hword
  · rcases atHand_cases i n with ⟨hin,-⟩ | ⟨-,heq⟩
    · have hzero : n=0 := by omega
      subst hzero
      simpa using hi.word hin
    · omega

/-- The second word follows it. -/
theorem Window.second_eq (h : Window s m q upper n) (hi : Feeds i m q upper n)
    (hk : 2≤atHand i n) : (if s.valid_Q 1 then s.rdata_Q 1 else i.in_rdata_i)=m (q+1) := by
  rw [h.words.taken]
  by_cases hn : 1<n
  · have hword := h.words.value 1 hn
    simpa [hn] using hword
  · rcases atHand_cases i n with ⟨hin,hone⟩ | ⟨-,heq⟩
    · have hn1 : n=1 := by omega
      subst hn1
      simpa using hi.word hin
    · omega

theorem Window.out_addr_eq (h : Window s m q upper n) (hi : Feeds i m q upper n)
    (hk : 0<atHand i n) : out_addr_o s i=halfAddr q upper := by
  unfold out_addr_o
  rw [h.words.taken]
  by_cases hn : 0<n
  · simpa [hn] using h.addr hn
  · rcases atHand_cases i n with ⟨hin,-⟩ | ⟨-,heq⟩
    · simpa [hn] using hi.addr hin (by omega)
    · omega

/-- The half of the first word that the next instruction starts in. -/
theorem half_eq (m : Memory) (q : BitVec 30) (upper : Bool) :
    m.half (halfAddr q upper)=(m q).extractLsb' (if upper then 16 else 0) 16 := by
  unfold Memory.half
  rw [halfAddr_word,halfAddr_bit]

theorem Window.unaligned_eq (h : Window s m q upper n) (hi : Feeds i m q upper n)
    (hk : 0<atHand i n) : unaligned s i=upper := by
  unfold unaligned
  rw [h.out_addr_eq hi hk,h.no_hwlp,halfAddr_bit,Bool.not_false,Bool.and_true]

/-- The low two bits of a half. -/
theorem extract_half (w : BitVec 32) (k : ℕ) :
    (w.extractLsb' k 16).extractLsb' 0 2=w.extractLsb' k 2 := by
  apply BitVec.eq_of_getLsbD_eq
  intro j hj
  have hj' : j<16 := by omega
  simp only [BitVec.getLsbD_extractLsb',hj,hj',Nat.zero_add,decide_true,Bool.true_and]

/-- The two compressed flags look at the half of the next instruction. -/
theorem Window.compressed_eq (h : Window s m q upper n) (hi : Feeds i m q upper n)
    (hk : 0<atHand i n) :
    (if upper then unaligned_is_compressed s i else aligned_is_compressed s i)=
      compressed (m.half (halfAddr q upper)) := by
  unfold unaligned_is_compressed aligned_is_compressed compressed
  rw [h.rdata_eq hi hk,half_eq,extract_half]
  cases upper with
  | true => rfl
  | false => rfl

/-- An instruction is offered when its last halfword is at hand. -/
theorem Window.out_valid_iff (h : Window s m q upper n) (hi : Feeds i m q upper n) :
    out_valid_o s i=true ↔ 0<atHand i n ∧
      (upper=false ∨ compressed (m.half (halfAddr q upper))=true ∨ 2≤atHand i n) := by
  unfold out_valid_o
  by_cases hk : 0<atHand i n
  · have hcomp := h.compressed_eq hi hk
    rw [h.unaligned_eq hi hk,h.valid_eq,h.valid_unaligned_eq]
    cases upper with
    | false => simp [hk]
    | true =>
      simp only [if_true] at hcomp ⊢
      rw [hcomp]
      cases compressed (m.half (halfAddr q true)) <;> simp [hk]
  · have hzero : atHand i n=0 := by omega
    rw [h.valid_eq,h.valid_unaligned_eq,hzero]
    simp

/-- What is offered is the instruction stored at its address. -/
theorem Window.out_stores (h : Window s m q upper n) (hi : Feeds i m q upper n)
    (hv : out_valid_o s i=true) :
    out_addr_o s i=halfAddr q upper ∧ m.Stores (halfAddr q upper) (out_rdata_o s i) := by
  rcases (h.out_valid_iff hi).mp hv with ⟨hk,hlast⟩
  refine ⟨h.out_addr_eq hi hk,?_⟩
  unfold out_rdata_o Memory.Stores
  rw [h.unaligned_eq hi hk,halfAddr_add_two]
  cases upper with
  | false =>
    simp only [Bool.false_eq_true,if_false,half_eq,h.rdata_eq hi hk,if_true,true_and,
      implies_true]
  | true =>
    unfold rdata_unaligned
    simp only [Bool.true_eq_false,false_or,if_true,half_eq,Bool.false_eq_true,if_false] at hlast ⊢
    rw [h.rdata_eq hi hk]
    refine ⟨BitVec.extractLsb'_append_eq_right,fun hfull => ?_⟩
    rw [BitVec.extractLsb'_append_eq_left,h.second_eq hi (hlast.resolve_left (by simp [hfull]))]

/-- The input port lengthens the window by the incoming word. -/
theorem Window.input (h : Window s m q upper n) (hi : Feeds i m q upper n) :
    Window (input s i) m q upper (atHand i n) := by
  unfold FetchFifo.input
  rcases atHand_cases i n with ⟨hin,hk⟩ | ⟨hin,hk⟩
  · rw [hin,hk,if_pos rfl,hi.no_replace]
    refine ⟨h.no_hwlp,?_,fun _ => ?_⟩
    · rw [hi.word hin]
      exact h.words.push (hi.room hin)
    · have hfree := h.words.firstFree_iff 0
      by_cases hn : n=0
      · have hfirst : FirstFree s.valid_Q 0 := hfree.mpr hn.symm
        exact (if_pos hfirst).trans (hi.addr hin hn)
      · have hfirst : ¬FirstFree s.valid_Q 0 := fun hf => hn (hfree.mp hf).symm
        exact (if_neg hfirst).trans (h.addr (by omega))
  · rw [hin,hk]
    exact h

/-- The position after the next instruction. -/
def nextHalf (m : Memory) (q : BitVec 30) (upper : Bool) : BitVec 30×Bool :=
  if compressed (m.half (halfAddr q upper)) then if upper then (q+1,false) else (q,true)
  else (q+1,upper)

theorem nextHalf_addr (m : Memory) (q : BitVec 30) (upper : Bool) :
    halfAddr (nextHalf m q upper).1 (nextHalf m q upper).2=
      halfAddr q upper+m.size (halfAddr q upper) := by
  unfold nextHalf Memory.size
  cases compressed (m.half (halfAddr q upper)) with
  | true =>
    rw [if_pos rfl,if_pos rfl,halfAddr_add_two]
    cases upper <;> rfl
  | false =>
    rw [if_neg (by decide),if_neg (by decide),halfAddr_add_four]

/-- Words of the window that remain when the next instruction is taken. -/
def remaining (m : Memory) (q : BitVec 30) (upper : Bool) (k : ℕ) : ℕ :=
  if compressed (m.half (halfAddr q upper)) && !upper then k else k-1

/-- A taken instruction moves the window to the one after it. -/
theorem Window.output_taken (h : Window s m q upper n) (hi : Feeds i m q upper n)
    (hr : i.out_ready_i=true) (hv : out_valid_o s i=true) :
    Window (output s i) m (nextHalf m q upper).1 (nextHalf m q upper).2
      (remaining m q upper (atHand i n)) := by
  rcases (h.out_valid_iff hi).mp hv with ⟨hk,-⟩
  have ht := h.input hi
  have hcomp := h.compressed_eq hi hk
  have haddr : (FetchFifo.input s i).addr_Q 0=halfAddr q upper := ht.addr hk
  have hnext : (addr_next s i).extractLsb' 2 30=q+1 := by
    unfold addr_next
    rw [haddr,halfAddr_word]
    exact (congrArg _ (halfAddr_add_four q false)).trans (halfAddr_word (q+1) false)
  rcases Nat.exists_eq_succ_of_ne_zero hk.ne' with ⟨k,hsucc⟩
  rw [hsucc] at ht ⊢
  have hshift : Holds (shift false (FetchFifo.input s i).valid_Q)
      (shift 0#32 (FetchFifo.input s i).rdata_Q) (fun j => m (q+1+BitVec.ofNat 30 j)) k := by
    have hmoved := ht.words.shift 0#32
    have hstream : (fun j => m (q+BitVec.ofNat 30 (j+1)))=fun j => m (q+1+BitVec.ofNat 30 j) := by
      funext j
      rw [Nat.add_comm,BitVec.ofNat_add,BitVec.add_assoc]
      rfl
    rw [hstream] at hmoved
    exact hmoved
  have hhwlp : ∀ j, shift false (FetchFifo.input s i).is_hwlp_Q j=false := by
    intro j
    unfold shift
    split_ifs
    · exact ht.no_hwlp _
    · rfl
  have hset : ∀ addr, Function.update (FetchFifo.input s i).addr_Q 0 addr 0=addr := by simp
  unfold output nextHalf remaining
  simp only [hr,hv,Bool.and_self,if_true,ht.no_hwlp,Bool.false_eq_true,if_false,haddr,halfAddr_bit,
    halfAddr_word,hnext]
  cases upper with
  | true =>
    simp only [if_true] at hcomp ⊢
    rw [hcomp]
    cases compressed (m.half (halfAddr q true)) with
    | true => exact ⟨hhwlp,hshift,fun _ => hset _⟩
    | false => exact ⟨hhwlp,hshift,fun _ => hset _⟩
  | false =>
    simp only [Bool.false_eq_true,if_false] at hcomp ⊢
    rw [hcomp]
    cases compressed (m.half (halfAddr q false)) with
    | true => exact ⟨hhwlp,ht.words,fun _ => hset _⟩
    | false => exact ⟨hhwlp,hshift,fun _ => hset _⟩

/-- Without a taken instruction the window stays. -/
theorem Window.output_kept (h : Window s m q upper n) (hi : Feeds i m q upper n)
    (hv : (i.out_ready_i && out_valid_o s i)=false) :
    Window (output s i) m q upper (atHand i n) := by
  unfold output
  rw [hv]
  exact h.input hi

/-- How a cycle that does not clear the FIFO moves its window: `k` words are at
hand, and an instruction may be taken. -/
structure Moved (m : Memory) (q : BitVec 30) (upper : Bool) (k : ℕ) (taken : Bool)
    (q' : BitVec 30) (upper' : Bool) (n' : ℕ) : Prop where
  /-- The window ends at the same word. -/
  last : q'+BitVec.ofNat 30 n'=q+BitVec.ofNat 30 k
  /-- It does not grow. -/
  bound : n'≤k
  /-- Used up words leave an aligned position. -/
  used : taken=true → n'=0 → upper'=false
  /-- Without an instruction the window stays. -/
  kept : taken=false → q'=q ∧ upper'=upper ∧ n'=k
  /-- An instruction moves it by its length. -/
  next : taken=true → 0<k ∧ halfAddr q' upper'=halfAddr q upper+m.size (halfAddr q upper)

/-- The window after a cycle. -/
theorem Window.moved (h : Window s m q upper n) (hi : Feeds i m q upper n)
    (hc : i.clear_i=false) : ∃ q' upper' n', Window (step s i) m q' upper' n' ∧
      Moved m q upper (atHand i n) (i.out_ready_i && out_valid_o s i) q' upper' n' := by
  unfold step
  rw [if_neg (by simp [hc])]
  cases htaken : i.out_ready_i && out_valid_o s i with
  | false =>
    exact ⟨q,upper,atHand i n,h.output_kept hi htaken,rfl,Nat.le_refl _,nofun,
      fun _ => ⟨rfl,rfl,rfl⟩,nofun⟩
  | true =>
    rcases Bool.and_eq_true_iff.mp htaken with ⟨hr,hv⟩
    rcases (h.out_valid_iff hi).mp hv with ⟨hk,hlast⟩
    refine ⟨_,_,_,h.output_taken hi hr hv,?_,?_,fun _ => ?_,nofun,
      fun _ => ⟨hk,nextHalf_addr m q upper⟩⟩
    · rcases Nat.exists_eq_succ_of_ne_zero hk.ne' with ⟨k,hsucc⟩
      have hmove : q+1+BitVec.ofNat 30 k=q+BitVec.ofNat 30 (k+1) := by
        rw [Nat.add_comm,BitVec.ofNat_add,BitVec.add_assoc]
        rfl
      unfold nextHalf remaining
      rw [hsucc]
      cases compressed (m.half (halfAddr q upper)) with
      | true => cases upper with
        | true => exact hmove
        | false => rfl
      | false => exact hmove
    · unfold remaining
      split_ifs <;> omega
    · unfold nextHalf remaining
      cases hcomp : compressed (m.half (halfAddr q upper)) with
      | true => cases upper with
        | true => simp
        | false => simp; omega
      | false => cases upper with
        | true =>
          have htwo : 2≤atHand i n := by simpa [hcomp] using hlast
          simp
          omega
        | false => simp

/-- A clear leaves the empty window at any position. -/
theorem window_clear (s : State) (hc : i.clear_i=true) (m : Memory) (q : BitVec 30)
    (upper : Bool) : Window (step s i) m q upper 0 := by
  unfold step
  rw [if_pos hc]
  exact ⟨fun _ => rfl,holds_clear _ _,fun hlt => absurd hlt (Nat.lt_irrefl 0)⟩

end Window

end Pulpissimo.Riscv.FetchFifo
