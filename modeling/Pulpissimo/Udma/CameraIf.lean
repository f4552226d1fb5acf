import Mathlib.Data.BitVec
import Pulpissimo.Lib.BitClock
import Pulpissimo.Lib.Machine

/-!
# The camera interface

`camera_if` pairs the bytes of a row, keeps the pixels of some frames and of a window in them, and
sends one word for each through three stages. Beside it stands a camera that counts the pixels of a
frame without bounds. The two agree as long as a frame ends with a full row, no pixel begins
in the cycle that starts a frame, the rows fit into their counter, and the sum of the colours fits
into seventeen bits where more of it is read.
-/

namespace Pulpissimo.Udma.CameraIf

open Pulpissimo.Machine

/-- Fields of the configuration registers. -/
structure Config where
  s_cfg_en : Bool
  s_cfg_framedrop_en : Bool
  s_cfg_framedrop_val : BitVec 6
  s_cfg_frameslice_en : Bool
  s_cfg_format : BitVec 3
  s_cfg_shift : BitVec 4
  s_cfg_frameslice_llx : BitVec 16
  s_cfg_frameslice_lly : BitVec 16
  s_cfg_frameslice_urx : BitVec 16
  s_cfg_frameslice_ury : BitVec 16
  s_cfg_rowlen : BitVec 16
  s_cfg_r_coeff : BitVec 8
  s_cfg_g_coeff : BitVec 8
  s_cfg_b_coeff : BitVec 8

/-- Registers of the camera clock. -/
structure State where
  r_rowcounter : BitVec 16
  r_colcounter : BitVec 16
  r_framecounter : BitVec 6
  r_sample_msb : Bool
  /-- First received byte. -/
  r_data_msb : BitVec 8
  r_vsync : Bool
  r_enable : Bool
  r_en_sync : BitVec 2
  r_r_pix : BitVec 8
  r_g_pix : BitVec 8
  r_b_pix : BitVec 8
  r_yuv_pix : BitVec 16
  r_tx_valid : Bool
  r_yuv_data_valid : Bool
  r_data_filter : BitVec 17
  r_data_filter_valid : Bool
  udma_tx_data : BitVec 16
  udma_tx_valid : Bool

/-- Values after reset. -/
def reset : State where
  r_rowcounter := 0
  r_colcounter := 0
  r_framecounter := 0
  r_sample_msb := true
  r_data_msb := 0
  r_vsync := false
  r_enable := false
  r_en_sync := 0
  r_r_pix := 0
  r_g_pix := 0
  r_b_pix := 0
  r_yuv_pix := 0
  r_tx_valid := false
  r_yuv_data_valid := false
  r_data_filter := 0
  r_data_filter_valid := false
  udma_tx_data := 0
  udma_tx_valid := false

/-- One cycle of inputs, with the eight bits of the data that are read. -/
structure Input where
  cam_vsync_i : Bool
  cam_hsync_i : Bool
  cam_data_i : BitVec 8

/-- Bits of red, green and blue in the two bytes of a pixel. -/
def RGB565 : BitVec 3 := 0
def RGB555 : BitVec 3 := 1
def RGB444 : BitVec 3 := 2

/-- The two bytes as they are, the first one above or below. -/
def BYPASS_LITEND : BitVec 3 := 4
def BYPASS_BIGEND : BitVec 3 := 5

section Format

variable (c : Config) (msb lsb : BitVec 8)

def s_r_pix : BitVec 8 :=
  if c.s_cfg_format=RGB565 then msb.extractLsb' 3 5++0#3
  else if c.s_cfg_format=RGB555 then msb.extractLsb' 2 5++0#3
  else if c.s_cfg_format=RGB444 then msb.extractLsb' 0 4++0#4
  else 0

def s_g_pix : BitVec 8 :=
  if c.s_cfg_format=RGB565 then msb.extractLsb' 0 3++lsb.extractLsb' 5 3++0#2
  else if c.s_cfg_format=RGB555 then msb.extractLsb' 0 2++lsb.extractLsb' 5 3++0#3
  else if c.s_cfg_format=RGB444 then lsb.extractLsb' 4 4++0#4
  else 0

def s_b_pix : BitVec 8 :=
  if c.s_cfg_format=RGB565 then lsb.extractLsb' 0 5++0#3
  else if c.s_cfg_format=RGB555 then lsb.extractLsb' 0 5++0#3
  else if c.s_cfg_format=RGB444 then lsb.extractLsb' 0 4++0#4
  else 0

def s_yuv_pix : BitVec 16 :=
  if c.s_cfg_format=BYPASS_LITEND then msb++lsb
  else if c.s_cfg_format=BYPASS_BIGEND then lsb++msb
  else 0

/-- Products of sixteen bits and a sum of seventeen. -/
def s_data_filter (r g b : BitVec 8) : BitVec 17 :=
  (r.setWidth 16*c.s_cfg_r_coeff.setWidth 16).setWidth 17+
    (g.setWidth 16*c.s_cfg_g_coeff.setWidth 16).setWidth 17+
    (b.setWidth 16*c.s_cfg_b_coeff.setWidth 16).setWidth 17

/-- Shifts up to nine have their case, the others read the lowest bits. -/
def s_data_filter_shift (r_data_filter : BitVec 17) : BitVec 16 :=
  if c.s_cfg_shift.toNat ≤ 9 then (r_data_filter >>> c.s_cfg_shift.toNat).setWidth 16
  else r_data_filter.setWidth 16

end Format

section Code

variable (c : Config) (s : State) (i : Input)

def s_sof : Bool := !s.r_vsync && i.cam_vsync_i

def s_framevalid : Bool := s.r_framecounter==0

def s_pixel_valid : Bool :=
  s_framevalid s && s.r_enable &&
    (!c.s_cfg_frameslice_en ||
      (decide (c.s_cfg_frameslice_lly ≤ s.r_rowcounter) &&
        decide (s.r_rowcounter ≤ c.s_cfg_frameslice_ury) &&
        decide (c.s_cfg_frameslice_llx ≤ s.r_colcounter) &&
        decide (s.r_colcounter ≤ c.s_cfg_frameslice_urx)))

def s_tx_valid : Bool := i.cam_hsync_i && s_pixel_valid c s && !s.r_sample_msb

/-- A byte that is neither in the first cycle of a frame nor before the first frame. -/
def sampled : Bool := !s_sof s i && i.cam_hsync_i && s.r_enable

/-- One edge of the camera clock. -/
def step : State where
  r_rowcounter :=
    if s_sof s i then 0
    else if sampled s i && !s.r_sample_msb && c.s_cfg_frameslice_en &&
        s.r_colcounter==c.s_cfg_rowlen then s.r_rowcounter+1
    else s.r_rowcounter
  r_colcounter :=
    if sampled s i && !s.r_sample_msb && c.s_cfg_frameslice_en then
      if s.r_colcounter=c.s_cfg_rowlen then 0 else s.r_colcounter+1
    else s.r_colcounter
  r_framecounter :=
    if s_sof s i && s.r_enable then
      if c.s_cfg_framedrop_en then
        if s.r_framecounter=c.s_cfg_framedrop_val then 0 else s.r_framecounter+1
      else 0
    else s.r_framecounter
  r_sample_msb :=
    if !s.r_enable || !i.cam_hsync_i then true else !s.r_sample_msb
  r_data_msb := if sampled s i && s.r_sample_msb then i.cam_data_i else s.r_data_msb
  r_vsync := if s.r_en_sync.getLsbD 1 then i.cam_vsync_i else s.r_vsync
  r_enable := if s_sof s i then s.r_en_sync.getLsbD 1 else s.r_enable
  r_en_sync := (s.r_en_sync.extractLsb' 0 1).concat c.s_cfg_en
  r_r_pix :=
    if s_tx_valid c s i && !c.s_cfg_format.getLsbD 2 then s_r_pix c s.r_data_msb else s.r_r_pix
  r_g_pix :=
    if s_tx_valid c s i && !c.s_cfg_format.getLsbD 2 then s_g_pix c s.r_data_msb i.cam_data_i
    else s.r_g_pix
  r_b_pix :=
    if s_tx_valid c s i && !c.s_cfg_format.getLsbD 2 then s_b_pix c i.cam_data_i else s.r_b_pix
  r_yuv_pix :=
    if s_tx_valid c s i && c.s_cfg_format.getLsbD 2 then s_yuv_pix c s.r_data_msb i.cam_data_i
    else s.r_yuv_pix
  r_tx_valid :=
    if s_tx_valid c s i then if c.s_cfg_format.getLsbD 2 then s.r_tx_valid else true else false
  r_yuv_data_valid :=
    if s_tx_valid c s i then if c.s_cfg_format.getLsbD 2 then true else s.r_yuv_data_valid else false
  r_data_filter :=
    if s.r_tx_valid then s_data_filter c s.r_r_pix s.r_g_pix s.r_b_pix else s.r_data_filter
  r_data_filter_valid := s.r_tx_valid
  udma_tx_data :=
    if s.r_data_filter_valid || s.r_yuv_data_valid then
      if s.r_data_filter_valid then s_data_filter_shift c s.r_data_filter else s.r_yuv_pix
    else s.udma_tx_data
  udma_tx_valid := s.r_data_filter_valid || s.r_yuv_data_valid

end Code

/-- The interface beside a camera whose frames and pixels are counted without bounds. -/
structure Sys where
  s : State
  /-- A frame has been started. -/
  on : Bool
  /-- Frames before this one. -/
  frame : ℕ
  /-- Pixels of this frame. -/
  index : ℕ
  /-- The first byte of a pixel. -/
  first : Option (BitVec 8)
  /-- Words of the pixels that are kept. -/
  words : List (BitVec 16)
  /-- Words that went to the queue. -/
  sent : List (BitVec 16)

def start : Sys := ⟨reset,false,0,0,none,[],[]⟩

/-- Pixels of a row. -/
def Config.width (c : Config) : ℕ := c.s_cfg_rowlen.toNat+1

/-- The sum of the colours by their coefficients. -/
def total (c : Config) (msb lsb : BitVec 8) : ℕ :=
  (s_r_pix c msb).toNat*c.s_cfg_r_coeff.toNat+
    (s_g_pix c msb lsb).toNat*c.s_cfg_g_coeff.toNat+
    (s_b_pix c lsb).toNat*c.s_cfg_b_coeff.toNat

/-- The word of a pixel. -/
def word (c : Config) (msb lsb : BitVec 8) : BitVec 16 :=
  if c.s_cfg_format.getLsbD 2 then s_yuv_pix c msb lsb
  else BitVec.ofNat 16 (total c msb lsb/2^c.s_cfg_shift.toNat)

section Camera

variable (c : Config) (u : Sys) (i : Input)

/-- A frame is started, two cycles after the enable or later. -/
def starts : Bool := s_sof u.s i && u.s.r_en_sync.getLsbD 1

/-- The frame is one that is kept. -/
def Kept : Prop := c.s_cfg_framedrop_en=true → u.frame%(c.s_cfg_framedrop_val.toNat+1)=0

/-- The next pixel is inside of the window. -/
def Inside : Prop :=
  c.s_cfg_frameslice_en=true →
    (c.s_cfg_frameslice_lly.toNat ≤ u.index/c.width ∧
      u.index/c.width ≤ c.s_cfg_frameslice_ury.toNat) ∧
    (c.s_cfg_frameslice_llx.toNat ≤ u.index%c.width ∧
      u.index%c.width ≤ c.s_cfg_frameslice_urx.toNat)

instance : Decidable (Kept c u) := inferInstanceAs (Decidable (_ → _))

instance : Decidable (Inside c u) := inferInstanceAs (Decidable (_ → _))

/-- A byte of the camera. -/
def byte : Bool := u.on && i.cam_hsync_i

/-- The words of a cycle. -/
def newWords : List (BitVec 16) :=
  if byte u i then
    u.first.elim [] fun msb => if Kept c u ∧ Inside c u then [word c msb i.cam_data_i] else []
  else []

/-- One cycle. -/
def next : Sys where
  s := step c u.s i
  on := u.on || starts u i
  frame := if starts u i && u.on then u.frame+1 else u.frame
  index := if starts u i then 0 else if byte u i && u.first.isSome then u.index+1 else u.index
  first := if byte u i && u.first.isNone then some i.cam_data_i else none
  words := u.words++newWords c u i
  sent := u.sent++if u.s.udma_tx_valid then [u.s.udma_tx_data] else []

/-- Where the interface follows the camera. -/
structure Fits : Prop where
  /-- The colours of a pixel that is kept fit into their sum where its last bit is read. -/
  sum : byte u i=true → ∀ msb ∈ u.first,Kept c u → Inside c u →
    c.s_cfg_format.getLsbD 2=false → 2 ≤ c.s_cfg_shift.toNat → total c msb i.cam_data_i < 2^17
  /-- No pixel begins in the cycle that starts a frame. -/
  whole : starts u i=true → byte u i=true → u.first≠none
  /-- Where there is a window, the frame before has ended with a full row. -/
  full : starts u i=true → c.s_cfg_frameslice_en=true → u.index%c.width=0
  /-- The rows fit into their counter. -/
  rows : byte u i=true → u.first≠none → c.s_cfg_frameslice_en=true → u.index/c.width < 2^16

end Camera

set_option synthInstance.maxSize 400 in
instance (c : Config) (u : Sys) (i : Input) : Decidable (Fits c u i) :=
  decidable_of_iff
    ((byte u i=true → ∀ msb ∈ u.first,Kept c u → Inside c u → c.s_cfg_format.getLsbD 2=false →
        2 ≤ c.s_cfg_shift.toNat → total c msb i.cam_data_i < 2^17) ∧
      (starts u i=true → byte u i=true → u.first≠none) ∧
      (starts u i=true → c.s_cfg_frameslice_en=true → u.index%c.width=0) ∧
      (byte u i=true → u.first≠none → c.s_cfg_frameslice_en=true → u.index/c.width < 2^16))
    ⟨fun ⟨hsum,hwhole,hfull,hrows⟩ => ⟨hsum,hwhole,hfull,hrows⟩,
      fun h => ⟨h.sum,h.whole,h.full,h.rows⟩⟩

/-- Words in the stages. -/
def inflight (c : Config) (s : State) : List (BitVec 16) :=
  (if s.udma_tx_valid then [s.udma_tx_data] else [])++
    (if s.r_data_filter_valid || s.r_yuv_data_valid then
      [if s.r_data_filter_valid then s_data_filter_shift c s.r_data_filter else s.r_yuv_pix]
    else [])++
    if s.r_tx_valid then
      [s_data_filter_shift c (s_data_filter c s.r_r_pix s.r_g_pix s.r_b_pix)]
    else []

/-- The registers are those of the camera. -/
structure Inv (c : Config) (u : Sys) : Prop where
  sync : u.s.r_en_sync.getLsbD 1=true → u.s.r_en_sync.getLsbD 0=true
  en : u.s.r_en_sync.getLsbD 0=true → c.s_cfg_en=true
  enabled : u.s.r_enable=u.on
  synced : u.on=true → u.s.r_en_sync.getLsbD 1=true
  off : u.on=false → u.first=none ∧ u.index=0
  pair : u.s.r_sample_msb=u.first.isNone
  msb : ∀ b,u.first=some b → u.s.r_data_msb=b
  col : c.s_cfg_frameslice_en=true → u.s.r_colcounter.toNat=u.index%c.width
  row : c.s_cfg_frameslice_en=true → u.s.r_rowcounter.toNat=u.index/c.width%2^16
  count : u.s.r_framecounter.toNat=
    if c.s_cfg_framedrop_en then u.frame%(c.s_cfg_framedrop_val.toNat+1) else 0
  /-- Only the stages of the format are in use. -/
  rgb : c.s_cfg_format.getLsbD 2=false → u.s.r_yuv_data_valid=false
  bypass : c.s_cfg_format.getLsbD 2=true → u.s.r_tx_valid=false ∧ u.s.r_data_filter_valid=false
  order : u.words=u.sent++inflight c u.s

section Words

variable {c : Config}

theorem toNat_mul_eq (x y : BitVec 8) :
    ((x.setWidth 16*y.setWidth 16).setWidth 17).toNat=x.toNat*y.toNat := by
  have hx := x.isLt
  have hy := y.isLt
  have hlt : x.toNat*y.toNat < 2^16 :=
    lt_of_le_of_lt (Nat.mul_le_mul (Nat.le_of_lt_succ hx) (Nat.le_of_lt_succ hy)) (by decide)
  rw [BitVec.toNat_setWidth,BitVec.toNat_mul,BitVec.toNat_setWidth,BitVec.toNat_setWidth,
    Nat.mod_eq_of_lt (by omega : x.toNat < 2^16),Nat.mod_eq_of_lt (by omega : y.toNat < 2^16),
    Nat.mod_eq_of_lt hlt,Nat.mod_eq_of_lt (by omega)]

/-- The sum wraps at seventeen bits. -/
theorem toNat_s_data_filter (msb lsb : BitVec 8) :
    (s_data_filter c (s_r_pix c msb) (s_g_pix c msb lsb) (s_b_pix c lsb)).toNat=
      total c msb lsb%2^17 := by
  rw [s_data_filter,BitVec.toNat_add,BitVec.toNat_add,toNat_mul_eq,toNat_mul_eq,toNat_mul_eq,
    Nat.mod_add_mod]
  rfl

/-- What is lost is read with a shift of two or more only. -/
theorem shift_eq_word {msb lsb : BitVec 8} (hshift : c.s_cfg_shift.toNat ≤ 9)
    (hformat : c.s_cfg_format.getLsbD 2=false)
    (hsum : 2 ≤ c.s_cfg_shift.toNat → total c msb lsb < 2^17) :
    s_data_filter_shift c (s_data_filter c (s_r_pix c msb) (s_g_pix c msb lsb) (s_b_pix c lsb))=
      word c msb lsb := by
  rw [s_data_filter_shift,if_pos hshift,word,if_neg (by rw [hformat]; exact Bool.false_ne_true)]
  apply BitVec.eq_of_toNat_eq
  rw [BitVec.toNat_setWidth,BitVec.toNat_ushiftRight,toNat_s_data_filter,BitVec.toNat_ofNat,
    Nat.shiftRight_eq_div_pow]
  generalize total c msb lsb=t at hsum ⊢
  rcases Nat.lt_or_ge c.s_cfg_shift.toNat 2 with hlow | hhigh
  · have hcases : c.s_cfg_shift.toNat=0 ∨ c.s_cfg_shift.toNat=1 := by omega
    rcases hcases with hzero | hone
    · rw [hzero]
      omega
    · rw [hone]
      omega
  · rw [Nat.mod_eq_of_lt (hsum hhigh)]

end Words

section Inv

variable {c : Config} {u : Sys} {i : Input}

theorem inv_start (c : Config) : Inv c start where
  sync := fun h => (nomatch h)
  en := fun h => (nomatch h)
  enabled := rfl
  synced := fun h => (nomatch h)
  off := fun _ => ⟨rfl,rfl⟩
  pair := rfl
  msb := fun _ h => (nomatch h)
  col := fun _ => (Nat.zero_mod _).symm
  row := fun _ => by rw [start,Nat.zero_div]; rfl
  count := by
    rw [start,Nat.zero_mod,ite_self]
    rfl
  rgb := fun _ => rfl
  bypass := fun _ => ⟨rfl,rfl⟩
  order := rfl

/-- The frame counter is that of the frames that are dropped. -/
theorem Inv.framevalid_iff (h : Inv c u) : s_framevalid u.s=true ↔ Kept c u := by
  rw [s_framevalid,beq_iff_eq,←BitVec.toNat_inj,h.count]
  unfold Kept
  cases c.s_cfg_framedrop_en <;> simp

/-- The window is that of the rows and columns, where the rows are not too many. -/
theorem Inv.pixel_valid_iff (h : Inv c u)
    (hrows : c.s_cfg_frameslice_en=true → u.index/c.width < 2^16) :
    s_pixel_valid c u.s=true ↔ u.on=true ∧ Kept c u ∧ Inside c u := by
  have hinside : (!c.s_cfg_frameslice_en ||
      (decide (c.s_cfg_frameslice_lly ≤ u.s.r_rowcounter) &&
        decide (u.s.r_rowcounter ≤ c.s_cfg_frameslice_ury) &&
        decide (c.s_cfg_frameslice_llx ≤ u.s.r_colcounter) &&
        decide (u.s.r_colcounter ≤ c.s_cfg_frameslice_urx)))=true ↔ Inside c u := by
    unfold Inside
    cases hslice : c.s_cfg_frameslice_en with
    | false => simp
    | true =>
      simp only [Bool.not_true,Bool.false_or,Bool.and_eq_true,decide_eq_true_eq,BitVec.le_def,
        h.row hslice,h.col hslice,Nat.mod_eq_of_lt (hrows hslice),true_implies,and_assoc]
  rw [s_pixel_valid,Bool.and_eq_true_iff,Bool.and_eq_true_iff,h.framevalid_iff,h.enabled,hinside]
  tauto

/-- A word is sent for the second byte of a pixel that is kept. -/
theorem Inv.tx_valid_iff (h : Inv c u) (hf : Fits c u i) :
    s_tx_valid c u.s i=true ↔
      byte u i=true ∧ (∃ b,u.first=some b) ∧ Kept c u ∧ Inside c u := by
  rw [s_tx_valid,Bool.and_eq_true_iff,Bool.and_eq_true_iff,h.pair,Bool.not_eq_true',byte,
    Bool.and_eq_true_iff,Option.isNone_eq_false_iff,Option.isSome_iff_exists]
  constructor
  · rintro ⟨⟨hsync,hvalid⟩,hfirst⟩
    have hon : u.on=true := by
      have hen := (Bool.and_eq_true_iff.mp (Bool.and_eq_true_iff.mp hvalid).1).2
      exact h.enabled.symm.trans hen
    have hbyte : byte u i=true := Bool.and_eq_true_iff.mpr ⟨hon,hsync⟩
    obtain ⟨b,hb⟩ := hfirst
    have hrows := hf.rows hbyte (by rw [hb]; exact Option.some_ne_none b)
    exact ⟨⟨hon,hsync⟩,⟨b,hb⟩,((h.pixel_valid_iff hrows).mp hvalid).2⟩
  · rintro ⟨⟨hon,hsync⟩,⟨b,hb⟩,hkept⟩
    have hbyte : byte u i=true := Bool.and_eq_true_iff.mpr ⟨hon,hsync⟩
    have hrows := hf.rows hbyte (by rw [hb]; exact Option.some_ne_none b)
    exact ⟨⟨hsync,(h.pixel_valid_iff hrows).mpr ⟨hon,hkept⟩⟩,⟨b,hb⟩⟩

/-- The words of a cycle are those that are sent. -/
theorem Inv.newWords_eq (h : Inv c u) (hf : Fits c u i) (hshift : c.s_cfg_shift.toNat ≤ 9) :
    newWords c u i=if s_tx_valid c u.s i then
      [if c.s_cfg_format.getLsbD 2 then s_yuv_pix c u.s.r_data_msb i.cam_data_i
        else s_data_filter_shift c (s_data_filter c (s_r_pix c u.s.r_data_msb)
          (s_g_pix c u.s.r_data_msb i.cam_data_i) (s_b_pix c i.cam_data_i))] else [] := by
  have htx := h.tx_valid_iff hf
  unfold newWords
  by_cases hsend : s_tx_valid c u.s i=true
  · obtain ⟨hbyte,⟨b,hb⟩,hkept,hinside⟩ := htx.mp hsend
    rw [if_pos hsend,if_pos hbyte,hb,Option.elim_some,if_pos ⟨hkept,hinside⟩,h.msb b hb]
    congr 1
    cases hformat : c.s_cfg_format.getLsbD 2 with
    | true => rw [if_pos rfl,word,if_pos hformat]
    | false =>
      rw [if_neg Bool.false_ne_true]
      exact (shift_eq_word hshift hformat (hf.sum hbyte b hb hkept hinside hformat)).symm
  · rw [if_neg hsend]
    by_cases hbyte : byte u i=true
    · rw [if_pos hbyte]
      cases hb : u.first with
      | none => rfl
      | some b =>
        rw [Option.elim_some]
        exact if_neg fun hboth => hsend (htx.mpr ⟨hbyte,⟨b,hb⟩,hboth⟩)
    · exact if_neg hbyte

/-- The stages move on. -/
theorem Inv.inflight_step (h : Inv c u) :
    inflight c u.s++(if s_tx_valid c u.s i then
      [if c.s_cfg_format.getLsbD 2 then s_yuv_pix c u.s.r_data_msb i.cam_data_i
        else s_data_filter_shift c (s_data_filter c (s_r_pix c u.s.r_data_msb)
          (s_g_pix c u.s.r_data_msb i.cam_data_i) (s_b_pix c i.cam_data_i))] else [])=
      (if u.s.udma_tx_valid then [u.s.udma_tx_data] else [])++inflight c (step c u.s i) := by
  unfold inflight
  rw [List.append_assoc,List.append_assoc]
  congr 1
  simp only [step]
  by_cases hformat : c.s_cfg_format.getLsbD 2=true
  · obtain ⟨hpix,hfilter⟩ := h.bypass hformat
    simp only [hformat,hpix,hfilter]
    cases hyuv : u.s.r_yuv_data_valid <;> cases htx : s_tx_valid c u.s i <;> simp
  · have hrgb := Bool.eq_false_of_not_eq_true hformat
    simp only [hrgb,h.rgb hrgb]
    cases hpix : u.s.r_tx_valid <;> cases hfilter : u.s.r_data_filter_valid <;>
      cases htx : s_tx_valid c u.s i <;> simp

/-- The enable goes through two registers. -/
theorem en_sync_step (c : Config) (s : State) (i : Input) :
    (step c s i).r_en_sync.getLsbD 0=c.s_cfg_en ∧
      (step c s i).r_en_sync.getLsbD 1=s.r_en_sync.getLsbD 0 := by
  constructor
  · simp only [step,BitVec.getLsbD_concat,if_true]
  · simp [step]

theorem R_width (c : Config) : 0 < c.width := Nat.succ_pos _

/-- Once it is on, a rise of the line starts a frame. -/
theorem Inv.starts_eq (h : Inv c u) (hon : u.on=true) : starts u i=s_sof u.s i := by
  rw [starts,h.synced hon,Bool.and_true]

/-- The bytes that are sampled are those of the camera, but for one that starts a frame. -/
theorem Inv.sampled_eq (h : Inv c u) : sampled u.s i=(!starts u i && byte u i) := by
  rw [sampled,byte,h.enabled]
  cases hon : u.on with
  | false => simp
  | true =>
    rw [h.starts_eq hon]
    simp

theorem Inv.enabled_step (h : Inv c u) : (step c u.s i).r_enable=(next c u i).on := by
  simp only [step,next,h.enabled]
  cases hon : u.on with
  | false =>
    rw [starts]
    cases s_sof u.s i <;> simp
  | true =>
    rw [h.synced hon]
    cases s_sof u.s i <;> simp

theorem Inv.pair_step (h : Inv c u) : (step c u.s i).r_sample_msb=(next c u i).first.isNone := by
  simp only [step,next,h.enabled,h.pair,byte]
  rcases Bool.eq_false_or_eq_true u.on with hon | hon <;>
    rcases Bool.eq_false_or_eq_true i.cam_hsync_i with hsync | hsync <;>
    rcases Option.eq_none_or_eq_some u.first with hfirst | ⟨b,hfirst⟩ <;>
    simp [hon,hsync,hfirst]

/-- The first byte is kept for the second one. -/
theorem Inv.msb_step (h : Inv c u) (hf : Fits c u i) {b : BitVec 8}
    (hb : (next c u i).first=some b) : (step c u.s i).r_data_msb=b := by
  simp only [next] at hb
  split_ifs at hb with hfirst
  obtain ⟨hbyte,hnone⟩ := Bool.and_eq_true_iff.mp hfirst
  have hstarts : starts u i=false := Bool.eq_false_of_not_eq_true fun hs =>
    hf.whole hs hbyte (Option.isNone_iff_eq_none.mp hnone)
  have hsampled : sampled u.s i=true := by
    rw [h.sampled_eq,hstarts,hbyte]
    rfl
  simp only [step,h.pair,hsampled,hnone,Bool.and_self,if_true]
  exact Option.some.inj hb

/-- A frame that starts finds the column at its first one. -/
theorem Inv.col_step (h : Inv c u) (hf : Fits c u i) (hslice : c.s_cfg_frameslice_en=true) :
    (step c u.s i).r_colcounter.toNat=(next c u i).index%c.width := by
  have hcol := h.col hslice
  have hlt := Nat.mod_lt u.index (R_width c)
  have hwidth : c.width=c.s_cfg_rowlen.toNat+1 := rfl
  simp only [step,next,h.sampled_eq,h.pair,hslice,Bool.and_true]
  cases hstarts : starts u i with
  | true =>
    simp only [Bool.not_true,Bool.false_and,Bool.false_eq_true,if_false,if_true,Nat.zero_mod]
    rw [hcol]
    exact hf.full hstarts hslice
  | false =>
    simp only [Bool.not_false,Bool.true_and,Bool.false_eq_true,if_false,Option.not_isNone]
    by_cases hpixel : (byte u i && u.first.isSome)=true
    · rw [if_pos hpixel,if_pos hpixel,BitClock.succ_mod (R_width c)]
      by_cases hlast : u.s.r_colcounter=c.s_cfg_rowlen
      · have hend : u.index%c.width+1=c.width := by
          rw [←hcol,hlast,hwidth]
        rw [if_pos hlast,if_pos hend]
        rfl
      · have hne : u.index%c.width+1≠c.width := fun hend => hlast <| BitVec.eq_of_toNat_eq <| by
          rw [hcol]
          omega
        rw [if_neg hlast,if_neg hne,BitVec.toNat_add,hcol]
        have hone : (1 : BitVec 16).toNat=1 := rfl
        have hwide := c.s_cfg_rowlen.isLt
        rw [hone]
        exact Nat.mod_eq_of_lt (by omega)
    · rw [if_neg hpixel,if_neg hpixel]
      exact hcol

/-- A full row leads to the next one. -/
theorem Inv.row_step (h : Inv c u) (hslice : c.s_cfg_frameslice_en=true) :
    (step c u.s i).r_rowcounter.toNat=(next c u i).index/c.width%2^16 := by
  have hcol := h.col hslice
  have hrow := h.row hslice
  have hwidth : c.width=c.s_cfg_rowlen.toNat+1 := rfl
  have hlast : (u.s.r_colcounter==c.s_cfg_rowlen)=true ↔ c.width∣u.index+1 := by
    rw [beq_iff_eq,←BitVec.toNat_inj,hcol,Nat.dvd_iff_mod_eq_zero,BitClock.succ_mod (R_width c)]
    by_cases hend : u.index%c.width+1=c.width
    · rw [if_pos hend]
      exact iff_of_true (by omega) rfl
    · rw [if_neg hend]
      exact iff_of_false (by omega) (Nat.succ_ne_zero _)
  simp only [step,next,h.sampled_eq,h.pair,hslice,Bool.and_true]
  cases hstarts : starts u i with
  | true =>
    have hsof : s_sof u.s i=true := (Bool.and_eq_true_iff.mp hstarts).1
    rw [if_pos hsof,if_pos rfl,Nat.zero_div]
    rfl
  | false =>
    simp only [Bool.not_false,Bool.true_and,Bool.false_eq_true,if_false,Option.not_isNone]
    by_cases hsof : s_sof u.s i=true
    · -- A rise that starts no frame comes before the first one.
      have hon : u.on=false := Bool.eq_false_of_not_eq_true fun hon => by
        rw [h.starts_eq hon,hsof] at hstarts
        exact (nomatch hstarts)
      have hbyte : byte u i=false := by
        rw [byte,hon,Bool.false_and]
      rw [if_pos hsof,hbyte,Bool.false_and,if_neg Bool.false_ne_true,(h.off hon).2,Nat.zero_div]
      rfl
    · rw [if_neg hsof]
      by_cases hpixel : (byte u i && u.first.isSome)=true
      · rw [hpixel,Bool.true_and,if_pos rfl,Nat.succ_div]
        by_cases hend : (u.s.r_colcounter==c.s_cfg_rowlen)=true
        · rw [if_pos hend,if_pos (hlast.mp hend),BitVec.toNat_add,hrow,Nat.mod_add_mod]
          rfl
        · rw [if_neg hend,if_neg (mt hlast.mpr hend)]
          exact hrow
      · have hno : (byte u i && u.first.isSome)=false := Bool.eq_false_of_not_eq_true hpixel
        rw [hno,Bool.false_and,if_neg Bool.false_ne_true,if_neg Bool.false_ne_true]
        exact hrow

/-- The frames that are dropped are counted from one that is kept to the next. -/
theorem Inv.count_step (h : Inv c u) :
    (step c u.s i).r_framecounter.toNat=if c.s_cfg_framedrop_en then
      (next c u i).frame%(c.s_cfg_framedrop_val.toNat+1) else 0 := by
  have hcount := h.count
  have hcond : (s_sof u.s i && u.s.r_enable)=(starts u i && u.on) := by
    rw [h.enabled]
    cases hon : u.on with
    | false => rw [Bool.and_false,Bool.and_false]
    | true => rw [h.starts_eq hon]
  simp only [step,next,hcond]
  by_cases hframe : (starts u i && u.on)=true
  · rw [if_pos hframe,if_pos hframe]
    cases hdrop : c.s_cfg_framedrop_en with
    | false => rfl
    | true =>
      rw [hdrop,if_pos rfl] at hcount
      have hlt : u.frame%(c.s_cfg_framedrop_val.toNat+1) < c.s_cfg_framedrop_val.toNat+1 :=
        Nat.mod_lt _ (Nat.succ_pos _)
      rw [if_pos rfl,if_pos rfl,BitClock.succ_mod (Nat.succ_pos _)]
      by_cases hlast : u.s.r_framecounter=c.s_cfg_framedrop_val
      · rw [if_pos hlast,if_pos (by rw [←hcount,hlast])]
        rfl
      · have hne : u.frame%(c.s_cfg_framedrop_val.toNat+1)+1≠c.s_cfg_framedrop_val.toNat+1 :=
          fun hend => hlast <| BitVec.eq_of_toNat_eq <| by
            rw [hcount]
            omega
        have hone : (1 : BitVec 6).toNat=1 := rfl
        have hwide := c.s_cfg_framedrop_val.isLt
        rw [if_neg hlast,if_neg hne,BitVec.toNat_add,hcount,hone]
        exact Nat.mod_eq_of_lt (by omega)
  · rw [if_neg hframe,if_neg hframe]
    exact hcount

/-- One cycle that fits. -/
theorem Inv.next (h : Inv c u) (hf : Fits c u i) (hshift : c.s_cfg_shift.toNat ≤ 9) :
    Inv c (CameraIf.next c u i) where
  sync := fun hone => by
    obtain ⟨hzero,hnext⟩ := en_sync_step c u.s i
    exact hzero.trans (h.en (hnext.symm.trans hone))
  en := fun hzero => (en_sync_step c u.s i).1.symm.trans hzero
  enabled := h.enabled_step
  synced := fun hon => by
    have hone : u.s.r_en_sync.getLsbD 1=true := by
      rcases Bool.or_eq_true_iff.mp hon with hon | hstarts
      · exact h.synced hon
      · exact (Bool.and_eq_true_iff.mp hstarts).2
    exact (en_sync_step c u.s i).2.trans (h.sync hone)
  off := fun hoff => by
    obtain ⟨hon,hstarts⟩ := Bool.or_eq_false_iff.mp hoff
    have hbyte : byte u i=false := by
      rw [byte,hon,Bool.false_and]
    simp only [CameraIf.next,hbyte,hstarts]
    exact ⟨rfl,(h.off hon).2⟩
  pair := h.pair_step
  msb := fun _ hb => h.msb_step hf hb
  col := h.col_step hf
  row := h.row_step
  count := h.count_step
  rgb := fun hrgb => by
    simp only [CameraIf.next,step,hrgb,h.rgb hrgb,Bool.false_eq_true,if_false,ite_self]
  bypass := fun hbypass => by
    obtain ⟨hpix,-⟩ := h.bypass hbypass
    simp only [CameraIf.next,step,hbypass,hpix,if_true,ite_self,and_self]
  order := by
    have hwords := h.inflight_step (i:=i)
    rw [←h.newWords_eq hf hshift] at hwords
    show u.words++newWords c u i=(u.sent++_)++inflight c (step c u.s i)
    rw [h.order,List.append_assoc,hwords,List.append_assoc]

end Inv

/-- Cycles from the second byte of a pixel to its word at the queue. -/
def latency (c : Config) : ℕ := if c.s_cfg_format.getLsbD 2 then 2 else 3

section Runs

variable {c : Config} {u : Sys}

/-- What is in the stages is sent in as many cycles. -/
theorem Inv.drain (h : Inv c u) {js : List Input} (hjs : js.length=latency c) :
    (after (CameraIf.next c) u js).sent=u.sent++inflight c u.s := by
  unfold latency at hjs
  by_cases hformat : c.s_cfg_format.getLsbD 2=true
  · rw [if_pos hformat] at hjs
    obtain ⟨i,j,rfl⟩ := List.length_eq_two.mp hjs
    obtain ⟨hpix,hfilter⟩ := h.bypass hformat
    simp only [after_cons,after_nil,CameraIf.next,step,inflight,hpix,hfilter]
    cases hyuv : u.s.r_yuv_data_valid <;> simp
  · have hrgb := Bool.eq_false_of_not_eq_true hformat
    rw [if_neg hformat] at hjs
    obtain ⟨i,j,k,rfl⟩ := List.length_eq_three.mp hjs
    simp only [after_cons,after_nil,CameraIf.next,step,inflight,hrgb,h.rgb hrgb]
    cases hpix : u.s.r_tx_valid <;> cases hfilter : u.s.r_data_filter_valid <;> simp

/-- In every run that fits, the words at the queue are those of the pixels that are kept, in their
order and each with its latency. -/
theorem captures_of_fits (hshift : c.s_cfg_shift.toNat ≤ 9) {is js : List Input}
    (hjs : js.length=latency c) (hfits : Meets (next c) (Fits c) start is) :
    (after (next c) start (is++js)).sent=(after (next c) start is).words := by
  have hinv : Inv c (after (next c) start is) :=
    after_invariant_of_meets (fun u i h hf => h.next hf hshift) (inv_start c) hfits
  rw [after_append,hinv.drain hjs,hinv.order]

/-- Red, green and blue of sixteen bits, with every frame and no window. -/
def plain (shift : BitVec 4) : Config where
  s_cfg_en := true
  s_cfg_framedrop_en := false
  s_cfg_framedrop_val := 0
  s_cfg_frameslice_en := false
  s_cfg_format := RGB565
  s_cfg_shift := shift
  s_cfg_frameslice_llx := 0
  s_cfg_frameslice_lly := 0
  s_cfg_frameslice_urx := 0
  s_cfg_frameslice_ury := 0
  s_cfg_rowlen := 1
  s_cfg_r_coeff := 0xFF
  s_cfg_g_coeff := 0xFF
  s_cfg_b_coeff := 0xFF

/-- A frame of one pixel. -/
def onePixel (msb lsb : BitVec 8) : List Input :=
  [⟨false,false,0⟩,⟨false,false,0⟩,⟨true,false,0⟩,⟨true,true,msb⟩,⟨true,true,lsb⟩]

theorem captures_of_fits_example :
    (after (next (plain 2)) start (onePixel 0x12 0x34++List.replicate 3 ⟨false,false,0⟩)).sent=
      (after (next (plain 2)) start (onePixel 0x12 0x34)).words :=
  captures_of_fits (by decide) (by decide) (by decide +kernel)

/-- A white pixel loses the highest bit of its sum. -/
theorem not_captures_white :
    (after (next (plain 2)) start (onePixel 0xFF 0xFF++List.replicate 3 ⟨false,false,0⟩)).sent=
        [14917] ∧
      (after (next (plain 2)) start (onePixel 0xFF 0xFF)).words=[47685] := by
  decide +kernel

/-- A frame that ends in a row moves the window of the next one by a column: the window is the
first column of two, and the frame after one of a single pixel has none of its first pixel. -/
example : (after (next { plain 0 with s_cfg_frameslice_en := true }) start
    (onePixel 0x12 0x34++[⟨false,false,0⟩,⟨true,false,0⟩,⟨true,true,0x56⟩,⟨true,true,0x78⟩]++
      List.replicate 3 ⟨false,false,0⟩)).sent.length=1 := by
  decide +kernel

end Runs

end Pulpissimo.Udma.CameraIf
