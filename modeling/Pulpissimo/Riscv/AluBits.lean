import Pulpissimo.Riscv.AluFf
import Pulpissimo.Riscv.AluVector

/-!
# Bit operations of the arithmetic unit

Searches, counts and the operations on bit fields. A field is given by its position and by its
width less one, from the instruction or from a register, and the mask that is one on its bits is
made of two shifts.
-/

namespace Pulpissimo.Riscv.Alu

open Pulpissimo.Lanes Pulpissimo.Bits

section Search

variable (a : BitVec 32)

/-- The index of the least significant one, or 32. -/
def IsLowest (r : ℕ) : Prop :=
  (a=0 ∧ r=32) ∨ (a.getLsbD r=true ∧ ∀ j < r, a.getLsbD j=false)

/-- The index of the most significant one, or 32. -/
def IsHighest (r : ℕ) : Prop :=
  (a=0 ∧ r=32) ∨ (a.getLsbD r=true ∧ ∀ j, r < j → a.getLsbD j=false)

/-- The number of leading bits equal to the sign. -/
def IsSignRun (n : ℕ) : Prop :=
  n ≤ 32 ∧ (∀ j < n, a.getLsbD (31-j)=a.msb) ∧ (n < 32 → a.getLsbD (31-n) ≠ a.msb)

/-- Number of ones. -/
def ones : ℕ := (List.range 32).countP a.getLsbD

theorem bits_zero (k : ℕ) : (0 : BitVec 32).getLsbD k=false := BitVec.getLsbD_zero

/-- The unit's search is `alu_ff` with 32 bits. -/
theorem alu_ff_eq : (first_one_o a).toNat=(AluFf.first_one_o a).toNat ∧
    no_ones_o a=AluFf.no_ones_o a := by
  have hlevels : AluFf.NUM_LEVELS 32=5 := by decide
  refine ⟨?_,?_⟩
  · rw [first_one_o,AluFf.first_one_o,AluFf.index_nodes_within _ (by rw [hlevels]; decide),
      BitVec.toNat_ofNat,BitVec.toNat_ofNat,hlevels]
  · rw [no_ones_o,AluFf.no_ones_o,AluFf.sel_nodes_eq _ (by omega),hlevels]

/-- The first one of a word. -/
theorem first_one_spec : (no_ones_o a=true ∧ a=0) ∨
    (no_ones_o a=false ∧ a.getLsbD (first_one_o a).toNat=true ∧
      ∀ j < (first_one_o a).toNat, a.getLsbD j=false) := by
  obtain ⟨hfirst,hnone⟩ := alu_ff_eq a
  rw [hfirst,hnone]
  exact AluFf.finds_first a (by omega)

/-- The first one of a reversed word is the last one. -/
theorem first_one_reversed : (no_ones_o (rev a)=true ∧ a=0) ∨
    (no_ones_o (rev a)=false ∧ ∃ f, f < 32 ∧ (first_one_o (rev a)).toNat=f ∧
      a.getLsbD (31-f)=true ∧ ∀ j < f, a.getLsbD (31-j)=false) := by
  rcases first_one_spec (rev a) with ⟨hnone,hzero⟩ | ⟨hsome,hbit,hfirst⟩
  · refine Or.inl ⟨hnone,BitVec.eq_of_getLsbD_eq (fun k hk => ?_)⟩
    have hbit := getLsbD_rev a (k:=31-k) (by omega)
    rw [hzero,show 31-(31-k)=k by omega,bits_zero] at hbit
    rw [bits_zero]
    exact hbit.symm
  · have hlt := (first_one_o (rev a)).isLt
    refine Or.inr ⟨hsome,_,hlt,rfl,?_,fun j hj => ?_⟩
    · rw [←getLsbD_rev a hlt]
      exact hbit
    · rw [←getLsbD_rev a (by omega)]
      exact hfirst j hj

theorem ff1_bitop {i : Input} (hop : i.operator_i=ALU_FF1) :
    IsLowest i.operand_a_i (bitop_result i).toNat := by
  have hff : ff_input i.operator_i i.operand_a_i=i.operand_a_i := by rw [ff_input,if_pos hop]
  rw [bitop_result,hff,if_pos hop]
  rcases first_one_spec i.operand_a_i with ⟨hnone,hzero⟩ | ⟨hsome,hbit,hfirst⟩
  · rw [hnone,if_pos rfl]
    exact Or.inl ⟨hzero,rfl⟩
  · rw [hsome,if_neg Bool.false_ne_true,BitVec.toNat_setWidth_of_le (by omega)]
    exact Or.inr ⟨hbit,hfirst⟩

theorem fl1_bitop {i : Input} (hop : i.operator_i=ALU_FL1) :
    IsHighest i.operand_a_i (bitop_result i).toNat := by
  have hne : i.operator_i ≠ ALU_FF1 := by rw [hop]; decide
  have hff : ff_input i.operator_i i.operand_a_i=rev i.operand_a_i := by
    rw [ff_input,if_neg hne,if_pos (Or.inr (Or.inr hop))]
  rw [bitop_result,if_neg hne,if_pos hop,fl1_result,hff]
  rcases first_one_reversed i.operand_a_i with ⟨hnone,hzero⟩ | ⟨hsome,f,hf,hval,hbit,hfirst⟩
  · rw [hnone,if_pos rfl]
    exact Or.inl ⟨hzero,rfl⟩
  · have hindex : (31-first_one_o (rev i.operand_a_i)).toNat=31-f := by
      rw [BitVec.toNat_sub,hval]
      change (2^5-f+31)%2^5=31-f
      omega
    rw [hsome,if_neg Bool.false_ne_true,BitVec.toNat_setWidth_of_le (by omega),hindex]
    refine Or.inr ⟨hbit,fun j hj => ?_⟩
    rcases Nat.lt_or_ge j 32 with hlt | hge
    · have hzero := hfirst (31-j) (by omega)
      rwa [show 31-(31-j)=j by omega] at hzero
    · exact BitVec.getLsbD_of_ge _ _ hge

theorem cnt_bitop {i : Input} (hop : i.operator_i=ALU_CNT) :
    (bitop_result i).toNat=ones i.operand_a_i := by
  have hne : i.operator_i ≠ ALU_FF1 ∧ i.operator_i ≠ ALU_FL1 := by rw [hop]; decide
  rw [bitop_result,if_neg hne.1,if_neg hne.2,if_pos hop,alu_popcnt,BitTree.toNat_count,ones]
  simp only [Nat.zero_mul,Nat.zero_add]
  rfl

/-- A word without its sign: ones are the bits that differ from the sign. -/
def unsigned : BitVec 32 := if a.msb then ~~~a else a

theorem getLsbD_unsigned {k : ℕ} (hk : k < 32) :
    (unsigned a).getLsbD k=(a.getLsbD k != a.msb) := by
  unfold unsigned
  cases a.msb with
  | true => rw [if_pos rfl,BitVec.getLsbD_not,decide_eq_true hk,Bool.true_and,Bool.bne_true]
  | false => rw [if_neg Bool.false_ne_true,Bool.bne_false]

theorem clb_bitop {i : Input} (hop : i.operator_i=ALU_CLB) :
    if i.operand_a_i=0 then bitop_result i=0
    else IsSignRun i.operand_a_i ((bitop_result i).toNat+1) := by
  have hne : i.operator_i ≠ ALU_FF1 ∧ i.operator_i ≠ ALU_FL1 ∧ i.operator_i ≠ ALU_CNT := by
    rw [hop]; decide
  have hne' : ¬(i.operator_i=ALU_DIVU ∨ i.operator_i=ALU_REMU ∨ i.operator_i=ALU_FL1) := by
    rw [hop]; decide
  have hff : ff_input i.operator_i i.operand_a_i=rev (unsigned i.operand_a_i) := by
    rw [ff_input,if_neg hne.1,if_neg hne',if_pos (Or.inr (Or.inr hop)),unsigned]
    split_ifs <;> rfl
  have htop : (unsigned i.operand_a_i).getLsbD 31=false := by
    rw [getLsbD_unsigned _ (by omega),BitVec.msb_eq_getLsbD_last]
    exact bne_self_eq_false _
  rw [bitop_result,if_neg hne.1,if_neg hne.2.1,if_neg hne.2.2,if_pos hop,clb_result,hff]
  rcases first_one_reversed (unsigned i.operand_a_i) with
    ⟨hnone,hzero⟩ | ⟨hsome,f,hf,hval,hbit,hfirst⟩
  · have hsame : ∀ k < 32, i.operand_a_i.getLsbD k=i.operand_a_i.msb := by
      intro k hk
      have hbit := getLsbD_unsigned i.operand_a_i hk
      rw [hzero,bits_zero] at hbit
      exact bne_eq_false_iff_eq.mp hbit.symm
    rw [hnone,if_pos rfl]
    cases hmsb : i.operand_a_i.msb with
    | true =>
      have hnonzero : i.operand_a_i ≠ 0 := by
        intro h
        rw [h] at hmsb
        exact absurd hmsb (by decide)
      rw [if_neg hnonzero,if_pos rfl]
      exact ⟨le_rfl,fun j _ => hsame _ (by omega),fun h => absurd h (lt_irrefl _)⟩
    | false =>
      have h : i.operand_a_i=0 := BitVec.eq_of_getLsbD_eq fun k hk => by
        rw [hsame k hk,hmsb,bits_zero]
      rw [if_pos h,if_neg Bool.false_ne_true]
  · have hpos : 0 < f := by
      rcases Nat.eq_zero_or_pos f with rfl | hpos
      · exact absurd (htop.symm.trans hbit) Bool.false_ne_true
      · exact hpos
    have hnonzero : i.operand_a_i ≠ 0 := by
      intro hzero
      rw [getLsbD_unsigned _ (by omega),hzero] at hbit
      simp at hbit
    have hresult : ((first_one_o (rev (unsigned i.operand_a_i))).setWidth 6-1#6).toNat+1=f := by
      rw [BitVec.toNat_sub,BitVec.toNat_setWidth_of_le (by omega),hval]
      change (2^6-1+f)%2^6+1=f
      omega
    rw [if_neg hnonzero,hsome,if_neg Bool.false_ne_true,hresult]
    refine ⟨hf.le,fun j hj => ?_,fun _ heq => ?_⟩
    · have hdiff := hfirst j hj
      rw [getLsbD_unsigned _ (by omega)] at hdiff
      exact bne_eq_false_iff_eq.mp hdiff
    · rw [getLsbD_unsigned _ (by omega),heq,bne_self_eq_false] at hbit
      exact absurd hbit Bool.false_ne_true

end Search

section Field

variable (instr operand_a_fw_id operand_b_fw_id operand_c_fw_id : BitVec 32)

/-- Width less one of the field, from the instruction or from a register. -/
def bit_width : BitVec 5 :=
  if instr.getLsbD 30 then instr.extractLsb' 25 5 else operand_b_fw_id.extractLsb' 5 5

/-- Position of the field, from the instruction or from a register. -/
def bit_position : BitVec 5 :=
  if instr.getLsbD 30 then instr.extractLsb' 20 5 else operand_b_fw_id.extractLsb' 0 5

/-- The operands of the bit manipulation instructions, as decoded and selected. -/
def bit_input : Option Input :=
  let width := bit_width instr operand_b_fw_id
  let position := bit_position instr operand_b_fw_id
  let imm_i_type := (instr.extractLsb' 20 12).signExtend 32
  match (instr.extractLsb' 12 3).toNat with
  | 0 => some ⟨ALU_BEXT,.VEC_MODE32,operand_a_fw_id,position.setWidth 32,operand_c_fw_id,width,0⟩
  | 1 => some ⟨ALU_BEXTU,.VEC_MODE32,operand_a_fw_id,position.setWidth 32,operand_c_fw_id,width,0⟩
  | 2 =>
    some ⟨ALU_BINS,.VEC_MODE32,operand_a_fw_id,position.setWidth 32,operand_c_fw_id,width,position⟩
  | 3 => some ⟨ALU_BCLR,.VEC_MODE32,operand_a_fw_id,imm_i_type,operand_c_fw_id,width,position⟩
  | 4 => some ⟨ALU_BSET,.VEC_MODE32,operand_a_fw_id,imm_i_type,operand_c_fw_id,width,position⟩
  | _ => none

/-- The bit is one of the field. -/
def inField (p w k : ℕ) : Bool := decide (p ≤ k ∧ k ≤ p+w)

/-- Bits `p+w` to `p`. -/
def field (x : BitVec 32) (p w : ℕ) : BitVec (w+1) := x.extractLsb' p (w+1)

def setField (x : BitVec 32) (p w : ℕ) : BitVec 32 :=
  ofBits fun k => x.getLsbD k || inField p w k

def clearField (x : BitVec 32) (p w : ℕ) : BitVec 32 :=
  ofBits fun k => x.getLsbD k && !inField p w k

/-- The low bits of `y` in the place of the field of `x`. -/
def insertField (x y : BitVec 32) (p w : ℕ) : BitVec 32 :=
  ofBits fun k => if inField p w k then y.getLsbD (k-p) else x.getLsbD k

theorem field_insertField (x y : BitVec 32) {p w : ℕ} (h : w+p ≤ 31) :
    field (insertField x y p w) p w=y.setWidth (w+1) := by
  apply BitVec.eq_of_getLsbD_eq
  intro k hk
  have hin : inField p w (p+k)=true := decide_eq_true ⟨by omega,by omega⟩
  rw [field,BitVec.getLsbD_extractLsb',decide_eq_true hk,Bool.true_and,insertField,
    getLsbD_ofBits_lt _ (by omega),if_pos hin,BitVec.getLsbD_setWidth,decide_eq_true hk,
    Bool.true_and,Nat.add_sub_cancel_left]

variable {i : Input}

/-- The mask is one on the bits of the field. -/
theorem getLsbD_bmask {k : ℕ} (hk : k < 32) :
    (bmask i).getLsbD k=inField i.bmask_b_i.toNat i.bmask_a_i.toNat k := by
  have hones : ∀ m : Fin 32, (0xFFFFFFFE : BitVec 32).getLsbD m=decide (0 < m.val) := by decide
  have hlow : ∀ j < 32, (~~~bmask_first i).getLsbD j=decide (j ≤ i.bmask_a_i.toNat) := by
    intro j hj
    rw [bmask_first,BitVec.getLsbD_not,BitVec.shiftLeft_eq',BitVec.getLsbD_shiftLeft,
      decide_eq_true hj,Bool.true_and,Bool.true_and]
    rcases Nat.lt_or_ge j i.bmask_a_i.toNat with hlt | hge
    · rw [decide_eq_true hlt,decide_eq_true hlt.le]
      rfl
    · rw [decide_eq_false (Nat.not_lt.mpr hge),hones ⟨j-i.bmask_a_i.toNat,by omega⟩,
        Bool.not_false,Bool.true_and,←decide_not]
      exact decide_eq_decide.mpr (by dsimp only; omega)
  rw [bmask,BitVec.shiftLeft_eq',BitVec.getLsbD_shiftLeft,decide_eq_true hk,Bool.true_and,inField]
  rcases Nat.lt_or_ge k i.bmask_b_i.toNat with hlt | hge
  · rw [decide_eq_true hlt,decide_eq_false (by omega)]
    rfl
  · rw [decide_eq_false (Nat.not_lt.mpr hge),hlow _ (by omega),Bool.not_false,Bool.true_and]
    exact decide_eq_decide.mpr (by omega)

theorem bset_eq : bset_result i=setField i.operand_a_i i.bmask_b_i.toNat i.bmask_a_i.toNat := by
  apply BitVec.eq_of_getLsbD_eq
  intro k hk
  rw [bset_result,BitVec.getLsbD_or,getLsbD_bmask hk,setField,getLsbD_ofBits_lt _ hk]

theorem bclr_eq : bclr_result i=clearField i.operand_a_i i.bmask_b_i.toNat i.bmask_a_i.toNat := by
  apply BitVec.eq_of_getLsbD_eq
  intro k hk
  rw [bclr_result,BitVec.getLsbD_and,BitVec.getLsbD_not,decide_eq_true hk,Bool.true_and,
    getLsbD_bmask hk,clearField,getLsbD_ofBits_lt _ hk]

/-- Bits of the shifted operand under the mask, and of the other one elsewhere. -/
theorem getLsbD_bextins {k : ℕ} (hk : k < 32) : (bextins_result i).getLsbD k=
    if inField i.bmask_b_i.toNat i.bmask_a_i.toNat k then (shift_result i).getLsbD k
    else (bextins_and i).getLsbD k := by
  rw [bextins_result,BitVec.getLsbD_or,BitVec.getLsbD_and,BitVec.getLsbD_and,BitVec.getLsbD_not,
    decide_eq_true hk,Bool.true_and,getLsbD_bmask hk]
  cases inField i.bmask_b_i.toNat i.bmask_a_i.toNat k with
  | true => rw [if_pos rfl,Bool.true_and,Bool.not_true,Bool.and_false,Bool.or_false]
  | false => rw [if_neg Bool.false_ne_true,Bool.false_and,Bool.not_false,Bool.and_true,Bool.false_or]

variable (a c : BitVec 32) (w p : BitVec 5)

theorem setWidth_toNat_mod : (p.setWidth 32).toNat%32=p.toNat := by
  rw [BitVec.toNat_setWidth_of_le (by omega)]
  exact Nat.mod_eq_of_lt p.isLt

/-- An inserted field. -/
theorem bins_eq : bextins_result ⟨ALU_BINS,.VEC_MODE32,a,p.setWidth 32,c,w,p⟩=
    insertField c a p.toNat w.toNat := by
  have hshift := word_shift_left ⟨ALU_BINS,.VEC_MODE32,a,p.setWidth 32,c,w,p⟩
    rfl rfl rfl rfl rfl rfl
  dsimp only at hshift
  rw [setWidth_toNat_mod] at hshift
  apply BitVec.eq_of_getLsbD_eq
  intro k hk
  rw [getLsbD_bextins hk,insertField,getLsbD_ofBits_lt _ hk,hshift]
  dsimp only
  cases hin : inField p.toNat w.toNat k with
  | true =>
    have hrange := of_decide_eq_true hin
    rw [if_pos rfl,if_pos rfl,BitVec.getLsbD_shiftLeft,decide_eq_true hk,
      decide_eq_false (by omega),Bool.not_false,Bool.true_and,Bool.true_and]
  | false =>
    rw [if_neg Bool.false_ne_true,if_neg Bool.false_ne_true]
    rfl

theorem getLsbD_field (x : BitVec 32) {p w k : ℕ} (hk : k ≤ w) :
    (field x p w).getLsbD k=x.getLsbD (p+k) := by
  rw [field,BitVec.getLsbD_extractLsb',decide_eq_true (by omega),Bool.true_and]

/-- Bits of an extraction: those of the field and above them its sign or zeros. -/
theorem getLsbD_bext {i : Input} (hmask : i.bmask_b_i=0) (hins : (i.operator_i==ALU_BINS)=false)
    {p : ℕ} (hshift : shift_result i=shifted (extract_is_signed i) i.operand_a_i p)
    (h : i.bmask_a_i.toNat+p ≤ 31) {k : ℕ} (hk : k < 32) :
    (bextins_result i).getLsbD k=
      if k ≤ i.bmask_a_i.toNat then i.operand_a_i.getLsbD (p+k)
      else extract_is_signed i && i.operand_a_i.getLsbD (p+i.bmask_a_i.toNat) := by
  have hin : inField i.bmask_b_i.toNat i.bmask_a_i.toNat k=decide (k ≤ i.bmask_a_i.toNat) := by
    rw [hmask]
    exact decide_eq_decide.mpr ⟨fun h => h.2.trans_eq (Nat.zero_add _),
      fun h => ⟨Nat.zero_le _,h.trans_eq (Nat.zero_add _).symm⟩⟩
  rw [getLsbD_bextins hk,hin,hshift]
  rcases Nat.lt_or_ge i.bmask_a_i.toNat k with hout | hin
  · rw [decide_eq_false (by omega),if_neg Bool.false_ne_true,if_neg (by omega),bextins_and,hins,
      if_neg Bool.false_ne_true,BitVec.getLsbD_fill,decide_eq_true hk,Bool.and_true,extract_sign,
      hshift,getLsbD_shifted _ _ (by omega)]
  · rw [decide_eq_true hin,if_pos rfl,if_pos hin,getLsbD_shifted _ _ (by omega)]

/-- A field extracted with its sign. -/
theorem bext_eq (h : w.toNat+p.toNat ≤ 31) :
    bextins_result ⟨ALU_BEXT,.VEC_MODE32,a,p.setWidth 32,c,w,0⟩=
      (field a p.toNat w.toNat).signExtend 32 := by
  have hshift := word_shift_right ⟨ALU_BEXT,.VEC_MODE32,a,p.setWidth 32,c,w,0⟩ rfl rfl rfl rfl rfl
  dsimp only at hshift
  rw [setWidth_toNat_mod] at hshift
  apply BitVec.eq_of_getLsbD_eq
  intro k hk
  rw [getLsbD_bext rfl rfl hshift h hk,BitVec.getLsbD_signExtend,decide_eq_true hk,Bool.true_and]
  dsimp only
  split_ifs with hin hlt hlt
  · exact (getLsbD_field a hin).symm
  · omega
  · omega
  · rw [BitVec.msb_eq_getLsbD_last,Nat.add_sub_cancel,getLsbD_field a le_rfl]
    exact Bool.true_and _

/-- A field extracted with zeros. -/
theorem bextu_eq (h : w.toNat+p.toNat ≤ 31) :
    bextins_result ⟨ALU_BEXTU,.VEC_MODE32,a,p.setWidth 32,c,w,0⟩=
      (field a p.toNat w.toNat).setWidth 32 := by
  have hshift := word_shift_right ⟨ALU_BEXTU,.VEC_MODE32,a,p.setWidth 32,c,w,0⟩ rfl rfl rfl rfl rfl
  dsimp only at hshift
  rw [setWidth_toNat_mod] at hshift
  apply BitVec.eq_of_getLsbD_eq
  intro k hk
  rw [getLsbD_bext rfl rfl hshift h hk,BitVec.getLsbD_setWidth,decide_eq_true hk,Bool.true_and]
  dsimp only
  split_ifs with hin
  · exact (getLsbD_field a hin).symm
  · rw [(field a p.toNat w.toNat).getLsbD_of_ge k (by omega)]
    rfl

end Field

section Results

/-- What each bit manipulation does with the field at `p` of width `w+1`. -/
def manipulated (operator_i : BitVec 7) (a c : BitVec 32) (p w : ℕ) : BitVec 32 :=
  if operator_i=ALU_BSET then setField a p w
  else if operator_i=ALU_BCLR then clearField a p w
  else if operator_i=ALU_BINS then insertField c a p w
  else if operator_i=ALU_BEXT then (field a p w).signExtend 32
  else (field a p w).setWidth 32

theorem bit_result {instr a b c : BitVec 32} {i : Input} (other : BitVec 32)
    (hi : bit_input instr a b c=some i)
    (h : (bit_width instr b).toNat+(bit_position instr b).toNat ≤ 31) :
    result_o i other=
      manipulated i.operator_i a c (bit_position instr b).toNat (bit_width instr b).toNat := by
  unfold bit_input at hi
  dsimp only at hi
  split at hi
  · obtain rfl := Option.some.inj hi
    exact bext_eq a c _ _ h
  · obtain rfl := Option.some.inj hi
    exact bextu_eq a c _ _ h
  · obtain rfl := Option.some.inj hi
    exact bins_eq a c _ _
  · obtain rfl := Option.some.inj hi
    exact bclr_eq
  · obtain rfl := Option.some.inj hi
    exact bset_eq
  · exact nomatch hi

theorem search_result {i : Input} (other : BitVec 32)
    (hop : i.operator_i ∈ [ALU_FF1,ALU_FL1,ALU_CLB,ALU_CNT]) :
    result_o i other=(bitop_result i).setWidth 32 ∧
      (result_o i other).toNat=(bitop_result i).toNat := by
  have hresult : result_o i other=(bitop_result i).setWidth 32 := by
    obtain ⟨o,m,a,b,c,x,y⟩ := i
    simp only [List.mem_cons,List.not_mem_nil,or_false] at hop
    rcases hop with rfl | rfl | rfl | rfl <;> rfl
  exact ⟨hresult,by rw [hresult,BitVec.toNat_setWidth_of_le (by omega)]⟩

theorem extract_inserted {instr instr' a b c b' c' : BitVec 32} {i i' : Input} (other : BitVec 32)
    (hi : bit_input instr a b c=some i) (hop : i.operator_i=ALU_BINS)
    (hi' : bit_input instr' (result_o i other) b' c'=some i')
    (hwidth : bit_width instr' b'=bit_width instr b)
    (hposition : bit_position instr' b'=bit_position instr b)
    (h : (bit_width instr b).toNat+(bit_position instr b).toNat ≤ 31) :
    (i'.operator_i=ALU_BEXT →
      result_o i' other=(a.setWidth ((bit_width instr b).toNat+1)).signExtend 32) ∧
    (i'.operator_i=ALU_BEXTU →
      result_o i' other=(a.setWidth ((bit_width instr b).toNat+1)).setWidth 32) := by
  have hinsert := bit_result other hi h
  have hextract := bit_result other hi' (by rw [hwidth,hposition]; exact h)
  rw [hwidth,hposition,hinsert,hop] at hextract
  have hfield := field_insertField c a h
  refine ⟨fun hop' => ?_,fun hop' => ?_⟩
  · rw [hextract,hop',←hfield]
    rfl
  · rw [hextract,hop',←hfield]
    rfl

/-- The searches and counts of every word, the fields of every decoded instruction that lie within
the word, the inserted field read back, and the search in vectors of any length. -/
theorem bit_operations :
    (∀ (i : Input) (other : BitVec 32),
      (i.operator_i=ALU_FF1 → IsLowest i.operand_a_i (result_o i other).toNat) ∧
      (i.operator_i=ALU_FL1 → IsHighest i.operand_a_i (result_o i other).toNat) ∧
      (i.operator_i=ALU_CNT → (result_o i other).toNat=ones i.operand_a_i) ∧
      (i.operator_i=ALU_CLB → if i.operand_a_i=0 then result_o i other=0
        else IsSignRun i.operand_a_i ((result_o i other).toNat+1))) ∧
    (∀ (instr a b c : BitVec 32) (i : Input) (other : BitVec 32), bit_input instr a b c=some i →
      (bit_width instr b).toNat+(bit_position instr b).toNat ≤ 31 →
      result_o i other=
        manipulated i.operator_i a c (bit_position instr b).toNat (bit_width instr b).toNat) ∧
    (∀ (instr instr' a b c b' c' : BitVec 32) (i i' : Input) (other : BitVec 32),
      bit_input instr a b c=some i → i.operator_i=ALU_BINS →
      bit_input instr' (result_o i other) b' c'=some i' → bit_width instr' b'=bit_width instr b →
      bit_position instr' b'=bit_position instr b →
      (bit_width instr b).toNat+(bit_position instr b).toNat ≤ 31 →
      (i'.operator_i=ALU_BEXT →
        result_o i' other=(a.setWidth ((bit_width instr b).toNat+1)).signExtend 32) ∧
      (i'.operator_i=ALU_BEXTU →
        result_o i' other=(a.setWidth ((bit_width instr b).toNat+1)).setWidth 32)) ∧
    (∀ (LEN : ℕ) (in_i : BitVec LEN), 2 ≤ LEN →
      (AluFf.no_ones_o in_i=true ∧ in_i=0) ∨
        (AluFf.no_ones_o in_i=false ∧ in_i.getLsbD (AluFf.first_one_o in_i).toNat=true ∧
          ∀ j < (AluFf.first_one_o in_i).toNat, in_i.getLsbD j=false)) ∧
    ∀ a : BitVec 32, (first_one_o a).toNat=(AluFf.first_one_o a).toNat ∧
      no_ones_o a=AluFf.no_ones_o a := by
  refine ⟨fun i other => ⟨fun hop => ?_,fun hop => ?_,fun hop => ?_,fun hop => ?_⟩,
    fun _ _ _ _ _ other hi h => bit_result other hi h,
    fun _ _ _ _ _ _ _ _ _ other hi hop hi' hw hp h => extract_inserted other hi hop hi' hw hp h,
    fun _ in_i hLEN => AluFf.finds_first in_i hLEN,alu_ff_eq⟩
  · rw [(search_result other (by rw [hop]; decide)).2]
    exact ff1_bitop hop
  · rw [(search_result other (by rw [hop]; decide)).2]
    exact fl1_bitop hop
  · rw [(search_result other (by rw [hop]; decide)).2]
    exact cnt_bitop hop
  · obtain ⟨hresult,hval⟩ := search_result (i:=i) other (by rw [hop]; decide)
    have hclb := clb_bitop hop
    rw [hval,hresult]
    split_ifs at hclb ⊢ with hzero
    · rw [hclb]
      rfl
    · exact hclb

/-- Eight bits set from bit four on, and a vector of three bits that is not zero. -/
theorem bit_operations_example :
    result_o ⟨ALU_BSET,.VEC_MODE32,0,0xFFFFFCE4,0,7,4⟩ 0=0xFF0 ∧
      AluFf.no_ones_o (0b100 : BitVec 3)=false :=
  ⟨(bit_operations.2.1 0xCE40C133 0 0 0 ⟨ALU_BSET,.VEC_MODE32,0,0xFFFFFCE4,0,7,4⟩ 0 rfl
      (by decide)).trans (by decide),
    ((bit_operations.2.2.2.1 3 0b100 (by decide)).resolve_left
      (fun h => absurd h.2 (by decide))).1⟩

end Results

end Pulpissimo.Riscv.Alu
