import Mathlib.Data.List.GetD
import Pulpissimo.Udma.SpimTxrx

/-!
# The order of the bits

A word goes over the lines from its lowest byte on and in each byte from the highest bit down, or in
the custom order from its highest bit down. After some bits the transmitter's register has the
next ones where the lines are, and the receiver's has them where they belong. In the custom
order that holds of full words only, since the receiver shifts them in from below.
-/

namespace Pulpissimo.Udma.SpimTxrx

/-- Place in a word of the bit that is number `j` on the line. -/
def place (custom : Bool) (j : ℕ) : ℕ := if custom then 31-j else 8*(j/8)+(7-j%8)

/-- Bits of a word in their order on the line. -/
def bitsOf (custom : Bool) (w : BitVec 32) : List Bool :=
  (List.range 32).map fun j => w.getLsbD (place custom j)

section Order

variable {custom : Bool} {j k : ℕ} {w w' r : BitVec 32}

theorem place_place (custom : Bool) (hj : j < 32) : place custom (place custom j)=j := by
  unfold place
  cases custom
  · simp only [Bool.false_eq_true,if_false]
    omega
  · simp only [if_true]
    omega

theorem place_lt (custom : Bool) (hj : j < 32) : place custom j < 32 := by
  unfold place
  cases custom
  · simp only [Bool.false_eq_true,if_false]
    omega
  · simp only [if_true]
    omega

@[simp] theorem length_bitsOf (custom : Bool) (w : BitVec 32) : (bitsOf custom w).length=32 := by
  rw [bitsOf,List.length_map,List.length_range]

theorem getD_bitsOf (hj : j < 32) : (bitsOf custom w).getD j false=w.getLsbD (place custom j) := by
  rw [List.getD_eq_getElem _ _ (by rw [length_bitsOf]; exact hj)]
  simp only [bitsOf,List.getElem_map,List.getElem_range]

/-- A word is that of its bits. -/
theorem bitsOf_injective (h : bitsOf custom w=bitsOf custom w') : w=w' := by
  apply BitVec.eq_of_getLsbD_eq
  intro j hj
  have hbits := congrArg (fun l => l.getD (place custom j) false) h
  simp only [getD_bitsOf (place_lt custom hj),place_place custom hj] at hbits
  exact hbits

theorem take_drop_bitsOf {n : ℕ} (h : k+n ≤ 32) :
    ((bitsOf custom w).drop k).take n=(List.range n).map fun t => w.getLsbD (place custom (k+t)) := by
  apply List.ext_getElem
  · rw [List.length_take,List.length_drop,length_bitsOf,List.length_map,List.length_range]
    omega
  · intro t ht ht'
    simp only [bitsOf,List.getElem_take,List.getElem_drop,List.getElem_map,List.getElem_range]

/-- Where the transmitter has bit `j` of a word after `k` of its bits. -/
def spot (custom : Bool) (k j : ℕ) : ℕ :=
  if custom then 31-(j-k)
  else if j/8=k/8 then 7-(j-k)
  else 8*(j/8-k/8)+(7-j%8)

/-- The transmitter has a word after `k` of its bits. -/
def Holds (custom : Bool) (k : ℕ) (r w : BitVec 32) : Prop :=
  ∀ j,k ≤ j → j < 32 → r.getLsbD (spot custom k j)=w.getLsbD (place custom j)

theorem holds_load (custom : Bool) (w : BitVec 32) : Holds custom 0 w w := by
  intro j _ hj
  congr 1
  unfold spot place
  cases custom
  · simp only [Bool.false_eq_true,if_false]
    split_ifs <;> omega
  · rfl

end Order

/-- Bits on the lines, the highest one first. -/
def driven (s : State) (i : Input) : List Bool :=
  if i.tx_qpi_i then [s_spi_sdo3 s i,s_spi_sdo2 s i,s_spi_sdo1 s i,s_spi_sdo0 s i]
  else [s_spi_sdo0 s i]

section Transmitter

variable {custom : Bool} {k : ℕ} {w : BitVec 32} {s : State} {i : Input}

/-- The lines carry the next bits. -/
theorem driven_eq (hsend : s_tx_clken s=true) (hcustom : s.r_customsize=custom)
    (hholds : Holds custom k s.r_tx_shift_reg w) (hk : k%lanes i.tx_qpi_i=0) (hlt : k < 32) :
    driven s i=((bitsOf custom w).drop k).take (lanes i.tx_qpi_i) := by
  have hstate : s.tx_state=.TX_SEND := of_decide_eq_true hsend
  have hdriving : s_tx_driving s i=true := by
    rw [s_tx_driving,hstate]
  have hfit : k+lanes i.tx_qpi_i ≤ 32 := by
    rcases lanes_cases i.tx_qpi_i with ⟨-,hlanes⟩ | ⟨-,hlanes⟩ <;> rw [hlanes] at hk ⊢ <;> omega
  have hspot : ∀ t,t < lanes i.tx_qpi_i →
      s.r_tx_shift_reg.getLsbD (if custom then 31-t else 7-t)=w.getLsbD (place custom (k+t)) := by
    intro t ht
    have hplace : (if custom then 31-t else 7-t)=spot custom k (k+t) := by
      unfold spot
      cases custom
      · simp only [Bool.false_eq_true,if_false]
        rcases lanes_cases i.tx_qpi_i with ⟨-,hlanes⟩ | ⟨-,hlanes⟩ <;> rw [hlanes] at hk ht <;>
          rw [if_pos (by omega)] <;> omega
      · simp only [if_true]
        omega
    rw [hplace]
    exact hholds _ (Nat.le_add_right _ _) (by omega)
  rw [take_drop_bitsOf hfit]
  unfold driven s_spi_sdo3 s_spi_sdo2 s_spi_sdo1 s_spi_sdo0
  rw [hdriving,hcustom]
  cases hqpi : i.tx_qpi_i with
  | false =>
    have hzero := hspot 0 (by rw [hqpi]; decide)
    simp only [lanes,Bool.false_eq_true,if_false,Bool.true_and,List.range_one,List.map_cons,
      List.map_nil]
    rw [←hzero]
    cases custom <;> rfl
  | true =>
    have hzero := hspot 0 (by rw [hqpi]; decide)
    have hone := hspot 1 (by rw [hqpi]; decide)
    have htwo := hspot 2 (by rw [hqpi]; decide)
    have hthree := hspot 3 (by rw [hqpi]; decide)
    have hrange : List.range 4=[0,1,2,3] := rfl
    simp only [lanes,if_true,Bool.true_and,hrange,List.map_cons,List.map_nil]
    rw [←hzero,←hone,←htwo,←hthree]
    cases custom <;> rfl

/-- A register that was shifted up by some bits. -/
theorem getLsbD_shift_up {m n : ℕ} (r : BitVec 32) {b : ℕ} (hb : b < m+n) (hn : n ≤ b) :
    (r.extractLsb' 0 m++0#n).getLsbD b=r.getLsbD (b-n) := by
  rw [BitVec.getLsbD_append,if_neg (by omega),BitVec.getLsbD_extractLsb',decide_eq_true (by omega),
    Bool.true_and,Nat.zero_add]

/-- A register that was shifted down by a byte. -/
theorem getLsbD_shift_byte (r : BitVec 32) {b : ℕ} (hb : b < 24) :
    (0#8++r.extractLsb' 8 24).getLsbD b=r.getLsbD (b+8) := by
  rw [BitVec.getLsbD_append,if_pos hb,BitVec.getLsbD_extractLsb',decide_eq_true hb,Bool.true_and,
    Nat.add_comm]

/-- A register whose lowest byte was shifted up by some bits. -/
theorem getLsbD_shift_low {m n : ℕ} (r : BitVec 32) (hmn : m+n=8) {b : ℕ} (hb : b < 24+m+n)
    (hn : n ≤ b) : (r.extractLsb' 8 24++r.extractLsb' 0 m++0#n).getLsbD b=
      r.getLsbD (if b < 8 then b-n else b) := by
  rw [BitVec.getLsbD_append,if_neg (by omega),BitVec.getLsbD_append]
  by_cases hlow : b < 8
  · rw [if_pos (by omega),if_pos hlow,BitVec.getLsbD_extractLsb',decide_eq_true (by omega),
      Bool.true_and,Nat.zero_add]
  · rw [if_neg (by omega),if_neg hlow,BitVec.getLsbD_extractLsb',decide_eq_true (by omega),
      Bool.true_and]
    congr 1
    omega

/-- The next bits come to the lines. -/
theorem holds_shifted (hholds : Holds s.r_customsize k s.r_tx_shift_reg w)
    (hcount : s.r_customsize=false → s.r_tx_counter_bits.toNat=k%8/lanes i.tx_qpi_i)
    (hk : k%lanes i.tx_qpi_i=0) :
    Holds s.r_customsize (k+lanes i.tx_qpi_i) (shifted s i) w := by
  intro j hkj hj
  rw [←hholds j (by omega) hj]
  unfold shifted spot
  cases hcustom : s.r_customsize with
  | true =>
    simp only [if_true]
    cases hqpi : i.tx_qpi_i with
    | false =>
      rw [hqpi] at hkj
      have hlanes : lanes false=1 := rfl
      rw [hlanes] at hkj ⊢
      rw [if_neg Bool.false_ne_true,getLsbD_shift_up _ (by omega) (by omega)]
      congr 1
      omega
    | true =>
      rw [hqpi] at hkj
      have hlanes : lanes true=4 := rfl
      rw [hlanes] at hkj ⊢
      rw [if_pos rfl,getLsbD_shift_up _ (by omega) (by omega)]
      congr 1
      omega
  | false =>
    have hbits := hcount hcustom
    simp only [Bool.false_eq_true,if_false]
    cases hqpi : i.tx_qpi_i with
    | false =>
      have hlanes : lanes false=1 := rfl
      rw [hqpi,hlanes] at hkj hbits
      rw [hlanes]
      have hseven : (7 : BitVec 5).toNat=7 := rfl
      have hend : s.r_tx_counter_bits=7 ↔ k%8=7 := by
        rw [←BitVec.toNat_inj,hbits,hseven,Nat.div_one]
      rw [if_neg Bool.false_ne_true]
      by_cases hbyte : k%8=7
      · rw [if_pos (hend.mpr hbyte),getLsbD_shift_byte _ (by split_ifs <;> omega)]
        congr 1
        split_ifs <;> omega
      · rw [if_neg (mt hend.mp hbyte),
          getLsbD_shift_low _ (by decide) (by split_ifs <;> omega) (by split_ifs <;> omega)]
        congr 1
        split_ifs <;> omega
    | true =>
      have hlanes : lanes true=4 := rfl
      rw [hqpi,hlanes] at hkj hbits hk
      rw [hlanes]
      have hone : (1 : BitVec 5).toNat=1 := rfl
      have hend : s.r_tx_counter_bits=1 ↔ k%8=4 := by
        rw [←BitVec.toNat_inj,hbits,hone]
        omega
      rw [if_pos rfl]
      by_cases hbyte : k%8=4
      · rw [if_pos (hend.mpr hbyte),getLsbD_shift_byte _ (by split_ifs <;> omega)]
        congr 1
        split_ifs <;> omega
      · rw [if_neg (mt hend.mp hbyte),
          getLsbD_shift_low _ (by decide) (by split_ifs <;> omega) (by split_ifs <;> omega)]
        congr 1
        split_ifs <;> omega

end Transmitter

/-- Bits from the lines, the highest one first. -/
def sampled (i : Input) : List Bool :=
  if i.rx_qpi_i then
    [i.spi_sdi.getLsbD 3,i.spi_sdi.getLsbD 2,i.spi_sdi.getLsbD 1,i.spi_sdi.getLsbD 0]
  else [i.spi_sdi.getLsbD 0]

@[simp] theorem length_sampled (i : Input) : (sampled i).length=lanes i.rx_qpi_i := by
  unfold sampled lanes
  cases i.rx_qpi_i <;> rfl

/-- The receiver has the first bits of a word: where they belong, or in the custom order in its
lowest bits. -/
def Got (custom : Bool) (r : BitVec 32) (bs : List Bool) : Prop :=
  ∀ j,j < bs.length →
    r.getLsbD (if custom then bs.length-1-j else place false j)=bs.getD j false

section Receiver

variable {custom : Bool} {r : BitVec 32} {bs : List Bool} {s : State} {i : Input}

theorem got_nil (custom : Bool) (r : BitVec 32) : Got custom r [] := fun _ h => (nomatch h)

/-- A full word, or a part of one in the order of the bytes, has its bits in their order. -/
theorem Got.take_bitsOf (h : Got custom r bs) (hle : bs.length ≤ 32)
    (hfull : custom=true → bs.length=32) : (bitsOf custom r).take bs.length=bs := by
  apply List.ext_getElem
  · rw [List.length_take,length_bitsOf]
    omega
  · intro j hj hj'
    have hplace : place custom j=if custom then bs.length-1-j else place false j := by
      cases custom
      · rfl
      · rw [hfull rfl]
        rfl
    have hbit := h j hj'
    rw [←hplace,List.getD_eq_getElem _ _ hj'] at hbit
    simp only [bitsOf,List.getElem_take,List.getElem_map,List.getElem_range]
    exact hbit

theorem getLsbD_put {n : ℕ} (r : BitVec 32) (p : ℕ) (x : BitVec n) {b : ℕ} (hb : b < 32) :
    (put r p x).getLsbD b=if p ≤ b ∧ b < p+n then x.getLsbD (b-p) else r.getLsbD b :=
  Bits.getLsbD_ofBits_lt _ hb

theorem getD_sampled {t : ℕ} (ht : t < lanes i.rx_qpi_i) :
    (sampled i).getD t false=i.spi_sdi.getLsbD (lanes i.rx_qpi_i-1-t) := by
  unfold sampled
  rcases lanes_cases i.rx_qpi_i with ⟨hqpi,hlanes⟩ | ⟨hqpi,hlanes⟩ <;> rw [hlanes] at ht ⊢ <;> rw [hqpi]
  · obtain rfl := Nat.lt_one_iff.mp ht
    rfl
  · have hcases : t=0 ∨ t=1 ∨ t=2 ∨ t=3 := by omega
    rcases hcases with rfl | rfl | rfl | rfl <;> rfl

/-- The cases are those of the places. -/
theorem singlePlaces_eq {k : ℕ} (hk : k < 32) : singlePlaces[k]?=some (place false k) := by
  have hall : ∀ k < 32,singlePlaces[k]?=some (place false k) := by decide
  exact hall k hk

theorem quadPlaces_eq {k : ℕ} (hk : k < 32) (hfour : k%4=0) :
    quadPlaces[k/4]?=some (place false (k+3)) := by
  have hall : ∀ k < 32,k%4=0 → quadPlaces[k/4]?=some (place false (k+3)) := by decide
  exact hall k hk hfour

/-- In the order of the bytes the bits from the lines are written where they belong. -/
theorem s_rx_shift_reg_bytes (hreceive : receives s i=true) (hcustom : s.r_customsize=false)
    (hk : bs.length%lanes i.rx_qpi_i=0) (hlt : bs.length < 32)
    (hcount : s.r_rx_counter_bits.toNat=bs.length/lanes i.rx_qpi_i) :
    s_rx_shift_reg s i=put s.r_rx_shift_reg (place false (bs.length+(lanes i.rx_qpi_i-1)))
      (i.spi_sdi.extractLsb' 0 (lanes i.rx_qpi_i)) := by
  rw [s_rx_shift_reg,if_pos hreceive,if_neg (by rw [hcustom]; exact Bool.false_ne_true)]
  cases hqpi : i.rx_qpi_i with
  | false =>
    have hlanes : lanes false=1 := rfl
    rw [hqpi,hlanes,Nat.div_one] at hcount
    rw [if_neg Bool.false_ne_true,hcount,singlePlaces_eq hlt]
    rfl
  | true =>
    have hlanes : lanes true=4 := rfl
    rw [hqpi,hlanes] at hcount hk
    rw [if_pos rfl,hcount,quadPlaces_eq hlt hk]
    simp only [Option.elim_some,hlanes]
    congr 1
    exact (BitVec.extractLsb'_eq_self).symm

/-- In the custom order they are shifted in from below. -/
theorem s_rx_shift_reg_custom (hreceive : receives s i=true) (hcustom : s.r_customsize=true) {b : ℕ}
    (hb : b < 32) : (s_rx_shift_reg s i).getLsbD b=
      if b < lanes i.rx_qpi_i then i.spi_sdi.getLsbD b
      else s.r_rx_shift_reg.getLsbD (b-lanes i.rx_qpi_i) := by
  rw [s_rx_shift_reg,if_pos hreceive,if_pos hcustom]
  cases hqpi : i.rx_qpi_i with
  | false =>
    have hlanes : lanes false=1 := rfl
    rw [if_neg Bool.false_ne_true,hlanes,BitVec.getLsbD_append]
    by_cases hzero : b < 1
    · rw [if_pos hzero,if_pos hzero,BitVec.getLsbD_extractLsb',decide_eq_true hzero,Bool.true_and,
        Nat.zero_add]
    · rw [if_neg hzero,if_neg hzero,BitVec.getLsbD_extractLsb',decide_eq_true (by omega),
        Bool.true_and,Nat.zero_add]
  | true =>
    have hlanes : lanes true=4 := rfl
    rw [if_pos rfl,hlanes,BitVec.getLsbD_append]
    by_cases hlow : b < 4
    · rw [if_pos hlow,if_pos hlow]
    · rw [if_neg hlow,if_neg hlow,BitVec.getLsbD_extractLsb',decide_eq_true (by omega),
        Bool.true_and,Nat.zero_add]

/-- The next bits are received. -/
theorem got_step (hgot : Got s.r_customsize s.r_rx_shift_reg bs) (hreceive : receives s i=true)
    (hk : bs.length%lanes i.rx_qpi_i=0) (hlt : bs.length < 32)
    (hcount : s.r_customsize=false → s.r_rx_counter_bits.toNat=bs.length/lanes i.rx_qpi_i) :
    Got s.r_customsize (s_rx_shift_reg s i) (bs++sampled i) := by
  have hlanes := lanes_cases i.rx_qpi_i
  have hlength : (bs++sampled i).length=bs.length+lanes i.rx_qpi_i := by
    rw [List.length_append,length_sampled]
  intro j hj
  rw [hlength] at hj ⊢
  have hnew : ¬j < bs.length → (bs++sampled i).getD j false=
      i.spi_sdi.getLsbD (lanes i.rx_qpi_i-1-(j-bs.length)) := fun hge => by
    rw [List.getD_append_right _ _ _ _ (by omega),getD_sampled (by omega)]
  have hold : j < bs.length → (bs++sampled i).getD j false=bs.getD j false :=
    List.getD_append _ _ _ _
  cases hcustom : s.r_customsize with
  | true =>
    have hbound : bs.length+lanes i.rx_qpi_i ≤ 32 := by
      rcases hlanes with ⟨-,hlanes⟩ | ⟨-,hlanes⟩ <;> rw [hlanes] at hk ⊢ <;> omega
    simp only [if_true]
    rw [s_rx_shift_reg_custom hreceive hcustom (by omega)]
    by_cases hin : j < bs.length
    · have hbit := hgot j hin
      rw [hcustom,if_pos rfl] at hbit
      rw [if_neg (by omega),hold hin,←hbit]
      congr 1
      omega
    · rw [if_pos (by omega),hnew hin]
      congr 1
      omega
  | false =>
    simp only [Bool.false_eq_true,if_false]
    have hj32 : j < 32 := by
      rcases hlanes with ⟨-,hl⟩ | ⟨-,hl⟩ <;> rw [hl] at hk hj <;> omega
    rw [s_rx_shift_reg_bytes hreceive hcustom hk hlt (hcount hcustom),
      getLsbD_put _ _ _ (place_lt false hj32)]
    have hplace : ∀ m,place false m=8*(m/8)+(7-m%8) := fun _ => rfl
    by_cases hin : j < bs.length
    · have hbit := hgot j hin
      rw [hcustom,if_neg Bool.false_ne_true] at hbit
      rw [if_neg,hold hin,hbit]
      rw [hplace,hplace]
      rcases hlanes with ⟨-,hl⟩ | ⟨-,hl⟩ <;> rw [hl] at hk ⊢ <;> omega
    · have hrange : place false (bs.length+(lanes i.rx_qpi_i-1)) ≤ place false j ∧
          place false j < place false (bs.length+(lanes i.rx_qpi_i-1))+lanes i.rx_qpi_i ∧
          place false j-place false (bs.length+(lanes i.rx_qpi_i-1))=
            lanes i.rx_qpi_i-1-(j-bs.length) := by
        rw [hplace,hplace]
        rcases hlanes with ⟨-,hl⟩ | ⟨-,hl⟩ <;> rw [hl] at hk hj ⊢ <;> omega
      rw [if_pos ⟨hrange.1,hrange.2.1⟩,hrange.2.2,hnew hin,BitVec.getLsbD_extractLsb',
        decide_eq_true (by omega),Bool.true_and,Nat.zero_add]

end Receiver

end Pulpissimo.Udma.SpimTxrx
