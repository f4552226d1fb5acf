import Mathlib.Tactic.IntervalCases
import Pulpissimo.Lib.Bits
import Pulpissimo.Lib.Md5

/-!
# The MD5 core

Model of `md5`. The user loads a block in four quarters, and may pause between them. The core
then does one operation in each cycle, adds the result to the state before the block, shows it
for one cycle and waits for the next block. A new text starts from the initial state.
-/

namespace Pulpissimo.Hwpe.Md5Core

open Pulpissimo.Bits Pulpissimo.Md5

section Model

/-- Inputs of one cycle. -/
structure Input where
  load_i : Bool
  newtext_i : Bool
  data_i : BitVec 128

/-- Registers of `md5`. -/
structure State where
  ready_o : Bool
  data_o : BitVec 128
  message : BitVec 512
  ar : BitVec 32
  br : BitVec 32
  cr : BitVec 32
  dr : BitVec 32
  A : BitVec 32
  B : BitVec 32
  C : BitVec 32
  D : BitVec 32
  generate_hash : Bool
  getdata_state : BitVec 3
  round : BitVec 3
  round64 : BitVec 6

def reset : State :=
  ⟨false,0,0,0x67452301#32,0xEFCDAB89#32,0x98BADCFE#32,0x10325476#32,
    0x67452301#32,0xEFCDAB89#32,0x98BADCFE#32,0x10325476#32,false,0,0,0⟩

/-- The rows of the process `rom`: the constant, how far to rotate, and the word of the block. -/
def rom : List (BitVec 44) :=
  [0xD76AA478070,0xE8C7B7560C1,0x242070DB112,0xC1BDCEEE163,0xF57C0FAF074,0x4787C62A0C5,
    0xA8304613116,0xFD469501167,0x698098D8078,0x8B44F7AF0C9,0xFFFF5BB111A,0x895CD7BE16B,
    0x6B90112207C,0xFD9871930CD,0xA679438E11E,0x49B4082116F,0xF61E2562051,0xC040B340096,
    0x265E5A510EB,0xE9B6C7AA140,0xD62F105D055,0x0244145309A,0xD8A1E6810EF,0xE7D3FBC8144,
    0x21E1CDE6059,0xC33707D609E,0xF4D50D870E3,0x455A14ED148,0xA9E3E90505D,0xFCEFA3F8092,
    0x676F02D90E7,0x8D2A4C8A14C,0xFFFA3942045,0x8771F6810B8,0x6D9D612210B,0xFDE5380C17E,
    0xA4BEEA44041,0x4BDECFA90B4,0xF6BB4B60107,0xBEBFBC7017A,0x289B7EC604D,0xEAA127FA0B0,
    0xD4EF3085103,0x04881D05176,0xD9D4D039049,0xE6DB99E50BC,0x1FA27CF810F,0xC4AC5665172,
    0xF4292244060,0x432AFF970A7,0xAB9423A70FE,0xFC93A039155,0x655B59C306C,0x8F0CCC920A3,
    0xFFEFF47D0FA,0x85845DD1151,0x6FA87E4F068,0xFE2CE6E00AF,0xA30143140F6,0x4E0811A115D,
    0xF7537E82064,0xBD3AF2350AB,0x2AD7D2BB0F2,0xEB86D391159]

def t (round64 : BitVec 6) : BitVec 44 := rom.getD round64.toNat 0

/-- An assignment to a part of a vector, from bit `p` up. -/
def assign {w n : ℕ} (v : BitVec w) (p : ℕ) (x : BitVec n) : BitVec w :=
  ofBits fun k => if p ≤ k.val ∧ k.val < p+n then x.getLsbD (k.val-p) else v.getLsbD k.val

variable (s : State) (i : Input)

section Funcs

def fr_var : BitVec 32 :=
  match s.round.toNat with
  | 0 => s.br &&& s.cr ||| ~~~s.br &&& s.dr
  | 1 => s.br &&& s.dr ||| s.cr &&& ~~~s.dr
  | 2 => s.br ^^^ s.cr ^^^ s.dr
  | 3 => s.cr ^^^ (s.br ||| ~~~s.dr)
  | _ => 0

def tr_var : BitVec 32 := (t s.round64).extractLsb' 12 32

def s_var : BitVec 8 := (t s.round64).extractLsb' 4 8

def nblock : BitVec 4 := (t s.round64).extractLsb' 0 4

def message_var (n : ℕ) : BitVec 32 := s.message.extractLsb' (480-32*n) 32

def aux31 : BitVec 32 := s.ar+fr_var s+message_var s (nblock s).toNat+tr_var s

def func_out : BitVec 32 :=
  s.br+(aux31 s<<<s_var s ||| aux31 s>>>(32#32-(s_var s).setWidth 32))

end Funcs

/-- Last operation of a block. -/
def hash_generated : Bool := s.round64==63

def next_round64 : BitVec 6 :=
  if i.newtext_i then 0
  else
    match s.round64.toNat with
    | 0 => if s.generate_hash then 1 else s.round64
    | 63 => 0
    | _ => s.round64+1

def next_round : BitVec 3 :=
  if i.newtext_i then 0
  else
    match s.round64.toNat with
    | 0 => 0
    | 15 | 31 | 47 => s.round+1
    | 63 => 0
    | _ => s.round

/-- Next value of one of the working registers, from the state before the block, the initial
state and the operation. -/
def nextWord (chained first result old : BitVec 32) : BitVec 32 :=
  if s.getdata_state=0 then chained
  else if i.newtext_i then first
  else if s.generate_hash then result
  else old

def A_t : BitVec 32 := s.dr+s.A

def B_t : BitVec 32 := func_out s+s.B

def C_t : BitVec 32 := s.br+s.C

def D_t : BitVec 32 := s.cr+s.D

/-- The last operation of a block that was loaded. -/
def finishes : Bool := s.getdata_state==4 && hash_generated s

/-- Next value of one of the registers of the state. -/
def nextChained (result first old : BitVec 32) : BitVec 32 :=
  if finishes s then result else if i.newtext_i then first else old

def next_getdata_state : BitVec 3 :=
  let kept := if i.newtext_i then 0 else s.getdata_state
  match s.getdata_state.toNat with
  | 0 => if i.load_i then 1 else kept
  | 1 => if i.load_i then 2 else kept
  | 2 => if i.load_i then 3 else kept
  | 3 => if i.load_i then 4 else kept
  | 4 => if hash_generated s then 0 else kept
  | _ => kept

def next_message : BitVec 512 :=
  match s.getdata_state.toNat with
  | 0 => if i.load_i then assign s.message 384 i.data_i else s.message
  | 1 => if i.load_i then assign s.message 256 i.data_i else s.message
  | 2 => if i.load_i then assign s.message 128 i.data_i else s.message
  | 3 => if i.load_i then assign s.message 0 i.data_i else s.message
  | _ => s.message

def next_generate_hash : Bool :=
  match s.getdata_state.toNat with
  | 3 => if i.load_i then true else s.generate_hash
  | 4 => !hash_generated s
  | _ => s.generate_hash

def next_data_o : BitVec 128 := if s.getdata_state=4 then A_t s++B_t s++C_t s++D_t s else 0

def step : State where
  ready_o := finishes s
  data_o := next_data_o s
  message := next_message s i
  ar := nextWord s i s.A 0x67452301#32 s.dr s.ar
  br := nextWord s i s.B 0xEFCDAB89#32 (func_out s) s.br
  cr := nextWord s i s.C 0x98BADCFE#32 s.br s.cr
  dr := nextWord s i s.D 0x10325476#32 s.cr s.dr
  A := nextChained s i (A_t s) 0x67452301#32 s.A
  B := nextChained s i (B_t s) 0xEFCDAB89#32 s.B
  C := nextChained s i (C_t s) 0x98BADCFE#32 s.C
  D := nextChained s i (D_t s) 0x10325476#32 s.D
  generate_hash := next_generate_hash s i
  getdata_state := next_getdata_state s i
  round := next_round s i
  round64 := next_round64 s i

end Model

section Assign

variable {w n p : ℕ} (v : BitVec w) (x : BitVec n)

/-- The part that was assigned. -/
theorem extract_assign (hp : p+n ≤ w) : (assign v p x).extractLsb' p n=x := by
  apply BitVec.eq_of_getLsbD_eq
  intro z hz
  rw [BitVec.getLsbD_extractLsb',decide_eq_true hz,Bool.true_and,assign,
    getLsbD_ofBits_lt _ (by omega),if_pos (by dsimp only; omega)]
  congr 1
  exact Nat.add_sub_cancel_left p z

/-- Another part. -/
theorem extract_assign_of_ne {p' m : ℕ} (hp : p'+m ≤ w) (hne : p'+m ≤ p ∨ p+n ≤ p') :
    (assign v p x).extractLsb' p' m=v.extractLsb' p' m := by
  apply BitVec.eq_of_getLsbD_eq
  intro z hz
  rw [BitVec.getLsbD_extractLsb',BitVec.getLsbD_extractLsb',decide_eq_true hz,Bool.true_and,
    Bool.true_and,assign,getLsbD_ofBits_lt _ (by omega),if_neg (by dsimp only; omega)]

end Assign

section Operation

/-- The constants of the table are the first bits of sines. -/
theorem rom_starts : ∀ k : Fin 64, Sines.Starts (k+1) ((rom.getD k 0).extractLsb' 12 32).toNat := by
  decide +kernel

/-- The other two columns of the table. -/
theorem rom_columns : ∀ k : Fin 64,
    ((rom.getD k 0).extractLsb' 4 8).toNat=amount k ∧
      ((rom.getD k 0).extractLsb' 0 4).toNat=place k ∧ 0 < amount k ∧ amount k < 32 := by
  decide +kernel

variable (s : State)

/-- The words at work. -/
def working : Words := ⟨s.ar,s.br,s.cr,s.dr⟩

/-- The state before the block. -/
def chained : Words := ⟨s.A,s.B,s.C,s.D⟩

theorem tr_var_eq : tr_var s=sine s.round64.toNat := by
  have hlt := s.round64.isLt
  have hstarts := rom_starts ⟨s.round64.toNat,hlt⟩
  rw [sine_eq hlt hstarts,BitVec.ofNat_toNat,BitVec.setWidth_eq]
  rfl

theorem fr_var_eq (hround : s.round.toNat=s.round64.toNat/16) :
    fr_var s=auxiliary (s.round64.toNat/16) s.br s.cr s.dr := by
  have hlt := s.round64.isLt
  rw [fr_var,hround]
  obtain ⟨r,hr⟩ : ∃ r : Fin 4, s.round64.toNat/16=r.val := ⟨⟨_,by omega⟩,rfl⟩
  rw [hr]
  fin_cases r <;> rfl

/-- A rotation by way of two shifts. -/
theorem rotate_eq {x : BitVec 32} {r : BitVec 8} (hpos : 0 < r.toNat) (hlt : r.toNat < 32) :
    x<<<r ||| x>>>(32#32-r.setWidth 32)=x.rotateLeft r.toNat := by
  have hright : (32#32-r.setWidth 32).toNat=32-r.toNat := by
    rw [BitVec.toNat_sub,BitVec.toNat_setWidth,Nat.mod_eq_of_lt (by omega : r.toNat < 2^32)]
    show (2^32-r.toNat+32)%2^32=_
    omega
  rw [BitVec.rotateLeft_def,Nat.mod_eq_of_lt hlt,BitVec.shiftLeft_eq',BitVec.ushiftRight_eq',hright]

/-- What the core computes in one cycle is an operation. -/
theorem operation_eq {m : ℕ → BitVec 32} (hround : s.round.toNat=s.round64.toNat/16)
    (hm : ∀ n, n < 16 → message_var s n=m n) :
    (⟨s.dr,func_out s,s.br,s.cr⟩ : Words)=operation sine m s.round64.toNat (working s) := by
  rcases rom_columns ⟨s.round64.toNat,s.round64.isLt⟩ with ⟨hamount,hplace,hpos,hlt⟩
  have hs : (s_var s).toNat=amount s.round64.toNat := hamount
  have hn : (nblock s).toNat=place s.round64.toNat := hplace
  have hword : message_var s (nblock s).toNat=m (place s.round64.toNat) := by
    rw [←hn]
    exact hm _ (nblock s).isLt
  have haux : aux31 s=
      s.ar+auxiliary (s.round64.toNat/16) s.br s.cr s.dr+m (place s.round64.toNat)+
        sine s.round64.toNat := by
    rw [aux31,fr_var_eq s hround,hword,tr_var_eq]
  rw [func_out,rotate_eq (by rw [hs]; exact hpos) (by rw [hs]; exact hlt),hs,haux]
  rfl

end Operation

section Steps

variable {s : State} {i : Input} {n : ℕ}

theorem working_step (s : State) (i : Input) : working (step s i)=
    if s.getdata_state=0 then chained s
    else if i.newtext_i then initial
    else if s.generate_hash then ⟨s.dr,func_out s,s.br,s.cr⟩
    else working s := by
  show Words.mk (nextWord s i _ _ _ _) (nextWord s i _ _ _ _) (nextWord s i _ _ _ _)
    (nextWord s i _ _ _ _)=_
  unfold nextWord
  split_ifs <;> rfl

theorem chained_step (s : State) (i : Input) : chained (step s i)=
    if finishes s then add ⟨s.dr,func_out s,s.br,s.cr⟩ (chained s)
    else if i.newtext_i then initial
    else chained s := by
  show Words.mk (nextChained s i _ _ _) (nextChained s i _ _ _) (nextChained s i _ _ _)
    (nextChained s i _ _ _)=_
  unfold nextChained
  split_ifs <;> rfl

/-- A quarter of a block is loaded. -/
theorem load_step (hn : s.getdata_state.toNat=n) (hlt : n < 4) (hload : i.load_i=true) :
    (step s i).getdata_state.toNat=n+1 ∧
      (step s i).message=assign s.message (384-128*n) i.data_i ∧
      (step s i).generate_hash=(if n=3 then true else s.generate_hash) := by
  show (next_getdata_state s i).toNat=_ ∧ next_message s i=_ ∧ next_generate_hash s i=_
  rw [next_getdata_state,next_message,next_generate_hash,hn,hload]
  interval_cases n <;> exact ⟨rfl,rfl,rfl⟩

/-- Between two quarters. -/
theorem wait_step (hn : s.getdata_state.toNat=n) (hlt : n < 4) (hload : i.load_i=false) :
    (step s i).getdata_state=(if i.newtext_i then 0 else s.getdata_state) ∧
      (step s i).message=s.message ∧ (step s i).generate_hash=s.generate_hash := by
  show next_getdata_state s i=_ ∧ next_message s i=_ ∧ next_generate_hash s i=_
  rw [next_getdata_state,next_message,next_generate_hash,hn,hload]
  interval_cases n <;> exact ⟨rfl,rfl,rfl⟩

/-- The counters stay at zero while a block is loaded. -/
theorem idle_step (hgenerate : s.generate_hash=false) (hround64 : s.round64=0) :
    (step s i).round64=0 ∧ (step s i).round=0 := by
  show next_round64 s i=_ ∧ next_round s i=_
  rw [next_round64,next_round,hgenerate,hround64]
  cases i.newtext_i <;> exact ⟨rfl,rfl⟩

/-- The counters while a block is worked on. -/
theorem count_step (hgenerate : s.generate_hash=true) (hnew : i.newtext_i=false)
    (hround : s.round.toNat=s.round64.toNat/16) :
    (step s i).round64.toNat=(s.round64.toNat+1)%64 ∧
      (step s i).round.toNat=(step s i).round64.toNat/16 := by
  have htable : ∀ (v : BitVec 6) (r : BitVec 3), r.toNat=v.toNat/16 →
      (next_round64 ⟨false,0,0,0,0,0,0,0,0,0,0,true,4,r,v⟩ ⟨false,false,0⟩).toNat=(v.toNat+1)%64 ∧
        (next_round ⟨false,0,0,0,0,0,0,0,0,0,0,true,4,r,v⟩ ⟨false,false,0⟩).toNat=
          (next_round64 ⟨false,0,0,0,0,0,0,0,0,0,0,true,4,r,v⟩ ⟨false,false,0⟩).toNat/16 := by
    decide +kernel
  show (next_round64 s i).toNat=_ ∧ (next_round s i).toNat=(next_round64 s i).toNat/16
  rw [next_round64,next_round,hgenerate,hnew]
  exact htable s.round64 s.round hround

end Steps

end Pulpissimo.Hwpe.Md5Core
