import Pulpissimo.Hwpe.KeccakCore

/-!
# The hash of the Keccak core

Whatever the pace of the user, the words in the buffer of the padder are the padded message, and
the state of the permutation follows the sponge. The core announces its output when the last
block has been permuted, and the output is then the hash of the message.
-/

namespace Pulpissimo.Hwpe.KeccakCore

open Pulpissimo.Bits Pulpissimo.Lanes Pulpissimo.Keccak Pulpissimo.Hwpe.KeccakRound

section Words

theorem length_wordBits (v : BitVec 64) : (wordBits v).length=64 := List.length_ofFn

theorem getElem_wordBits (v : BitVec 64) {z : ℕ} (hz : z < (wordBits v).length) :
    (wordBits v)[z]=v.getLsbD (8*(7-z/8)+z%8) :=
  List.getElem_ofFn hz

/-- Bit `z` of a word in the order of the message is bit `z` of the swapped word. -/
theorem getD_wordBits (v : BitVec 64) {z : ℕ} (hz : z < 64) :
    (wordBits v).getD z false=(swapped v).getLsbD z := by
  have hlt : z < (wordBits v).length := by rwa [length_wordBits]
  have hbit := getLsbD_pack (w:=8) (fun b : Fin 8 => lane 8 (7-b.val) v) ⟨z/8,by omega⟩
    (Nat.mod_lt z (by decide))
  rw [Nat.div_add_mod] at hbit
  rw [List.getD_eq_getElem _ _ hlt,getElem_wordBits,swapped,hbit,
    getLsbD_lane _ (Nat.mod_lt z (by decide))]

/-- Bits of some words. -/
def bitsOf (ws : List (BitVec 64)) : List Bool := ws.flatMap wordBits

theorem bitsOf_append (ws vs : List (BitVec 64)) : bitsOf (ws++vs)=bitsOf ws++bitsOf vs :=
  List.flatMap_append

theorem bitsOf_concat (ws : List (BitVec 64)) (v : BitVec 64) :
    bitsOf (ws++[v])=bitsOf ws++wordBits v := by
  rw [bitsOf_append]
  congr 1

theorem length_bitsOf (ws : List (BitVec 64)) : (bitsOf ws).length=64*ws.length := by
  induction ws with
  | nil => rfl
  | cons w ws ih =>
    rw [bitsOf,List.flatMap_cons,List.length_append,length_wordBits,List.length_cons]
    have hrest : (ws.flatMap wordBits).length=64*ws.length := ih
    omega

/-- Bit `z` of word `k`. -/
theorem getD_bitsOf {ws : List (BitVec 64)} {k z : ℕ} (hk : k < ws.length) (hz : z < 64) :
    (bitsOf ws).getD (64*k+z) false=(swapped ws[k]).getLsbD z := by
  induction ws generalizing k with
  | nil => exact absurd hk (Nat.not_lt_zero k)
  | cons w ws ih =>
    rw [bitsOf,List.flatMap_cons]
    cases k with
    | zero =>
      rw [List.getD_append _ _ _ _ (by rw [length_wordBits]; omega),Nat.mul_zero,Nat.zero_add]
      exact getD_wordBits w hz
    | succ k =>
      rw [List.getD_append_right _ _ _ _ (by rw [length_wordBits]; omega),length_wordBits]
      have hplace : 64*(k+1)+z-64=64*k+z := by omega
      rw [hplace]
      exact ih (Nat.lt_of_succ_lt_succ hk)

/-- A one in the lowest place of the byte under the upper bits of a word. -/
theorem getLsbD_ended (v : BitVec 64) {a b p : ℕ} (hab : a+b=64) (hb : 8 ≤ b) (hp : p < 64) :
    (v.extractLsb' b a++BitVec.twoPow b (b-8)).getLsbD p=
      if p < b then decide (p=b-8) else v.getLsbD p := by
  rw [BitVec.getLsbD_append]
  split_ifs with hlow
  · rw [BitVec.getLsbD_twoPow,decide_eq_true (by omega),Bool.true_and]
    exact decide_eq_decide.mpr eq_comm
  · rw [BitVec.getLsbD_extractLsb',decide_eq_true (by omega),Bool.true_and]
    congr 1
    omega

theorem getLsbD_padder1 (v : BitVec 64) (n : BitVec 3) {p : ℕ} (hp : p < 64) :
    (padder1 v n).getLsbD p=
      if p < 64-8*n.toNat then decide (p=56-8*n.toNat) else v.getLsbD p := by
  have hn := n.isLt
  unfold padder1
  rcases (by omega : n.toNat=0 ∨ n.toNat=1 ∨ n.toNat=2 ∨ n.toNat=3 ∨ n.toNat=4 ∨ n.toNat=5 ∨
    n.toNat=6 ∨ n.toNat=7) with h | h | h | h | h | h | h | h
  · rw [h]
    have hone : 0x0100000000000000#64=BitVec.twoPow 64 56 := by decide
    rw [if_pos hp]
    show (0x0100000000000000#64).getLsbD p=_
    rw [hone,BitVec.getLsbD_twoPow,decide_eq_true (by decide),Bool.true_and]
    exact decide_eq_decide.mpr eq_comm
  · rw [h]
    exact getLsbD_ended (a:=8) (b:=56) v rfl (by decide) hp
  · rw [h]
    exact getLsbD_ended (a:=16) (b:=48) v rfl (by decide) hp
  · rw [h]
    exact getLsbD_ended (a:=24) (b:=40) v rfl (by decide) hp
  · rw [h]
    exact getLsbD_ended (a:=32) (b:=32) v rfl (by decide) hp
  · rw [h]
    exact getLsbD_ended (a:=40) (b:=24) v rfl (by decide) hp
  · rw [h]
    exact getLsbD_ended (a:=48) (b:=16) v rfl (by decide) hp
  · rw [h]
    exact getLsbD_ended (a:=56) (b:=8) v rfl (by decide) hp

/-- Padding a word ends its message with a one. -/
theorem wordBits_padder1 (v : BitVec 64) (n : BitVec 3) :
    wordBits (padder1 v n)=
      (wordBits v).take (8*n.toNat)++true::List.replicate (63-8*n.toNat) false := by
  have hn := n.isLt
  have hlength : ((wordBits v).take (8*n.toNat)).length=8*n.toNat := by
    rw [List.length_take,length_wordBits,Nat.min_eq_left (by omega)]
  apply List.ext_getElem
  · rw [length_wordBits,List.length_append,hlength,List.length_cons,List.length_replicate]
    omega
  · intro z hz hz'
    rw [length_wordBits] at hz
    rw [getElem_wordBits,getLsbD_padder1 _ _ (by omega)]
    rcases Nat.lt_trichotomy z (8*n.toNat) with hlt | heq | hgt
    · rw [List.getElem_append_left (by omega),List.getElem_take,getElem_wordBits,
        if_neg (by omega)]
    · rw [List.getElem_append_right (by omega),if_pos (by omega),decide_eq_true (by omega)]
      simp only [hlength,heq,Nat.sub_self,List.getElem_cons_zero]
    · obtain ⟨q,rfl⟩ : ∃ q,z=8*n.toNat+(q+1) := ⟨z-8*n.toNat-1,by omega⟩
      rw [List.getElem_append_right (by omega),if_pos (by omega),decide_eq_false (by omega)]
      simp only [hlength,Nat.add_sub_cancel_left,List.getElem_cons_succ,List.getElem_replicate]

theorem wordBits_zero : wordBits 0=List.replicate 64 false := by decide

/-- The last bit of a word is its bit 7. -/
theorem wordBits_setBit (v : BitVec 64) :
    wordBits (setBit v 7 true)=(wordBits v).dropLast++[true] := by
  apply List.ext_getElem
  · rw [List.length_append,List.length_dropLast,length_wordBits,length_wordBits]
    rfl
  · intro z hz hz'
    rw [length_wordBits] at hz
    rw [getElem_wordBits,getLsbD_setBit _ _ _ (by omega)]
    rcases Nat.lt_or_ge z 63 with hlt | hge
    · rw [if_neg (by omega),List.getElem_append_left (by
        rw [List.length_dropLast,length_wordBits]; omega),List.getElem_dropLast,getElem_wordBits]
    · rw [if_pos (by omega),List.getElem_append_right (by
        rw [List.length_dropLast,length_wordBits]; omega)]
      exact List.mem_singleton.mp (List.getElem_mem _) |>.symm

theorem setBit_getLsbD {n : ℕ} (v : BitVec n) (k : ℕ) : setBit v k (v.getLsbD k)=v := by
  apply BitVec.eq_of_getLsbD_eq
  intro i hi
  rw [getLsbD_setBit v k _ hi]
  split_ifs with hk
  · rw [hk]
  · rfl

/-- Setting the last bit of what ends with the one and zeros completes the padding. -/
theorem pad_of_last {m : List Bool} {q n : ℕ} (hlength : m.length+q+2=576*(n+1))
    (hstart : 576*n ≤ m.length) :
    (m++true::List.replicate (q+1) false).dropLast++[true]=Sponge.pad 576 m := by
  rw [←Sponge.pad_eq hlength (Nat.le_succ_of_le hstart),List.replicate_succ',←List.cons_append,
    ←List.append_assoc,List.dropLast_concat,List.append_assoc,List.cons_append]

end Words

section Buffer

/-- The buffer holds the given words, the last one lowest, with a bit of `i` for each. -/
structure Holds (s : Padder) (ws : List (BitVec 64)) : Prop where
  fits : ws.length ≤ 9
  index : s.i=BitVec.ofNat 9 (2^ws.length-1)
  words : ∀ k (hk : k < ws.length), lane 64 (ws.length-1-k) s.out=ws[k]

variable {s : Padder} {ws : List (BitVec 64)}

theorem buffer_full_eq (h : Holds s ws) : s.buffer_full=decide (ws.length=9) := by
  have htop : ∀ n : Fin 10, (BitVec.ofNat 9 (2^n.val-1)).getLsbD 8=decide (n.val=9) := by decide
  rw [Padder.buffer_full,h.index]
  exact htop ⟨ws.length,Nat.lt_succ_of_le h.fits⟩

/-- Before the last word of a block, bit 7 of `i` is set. -/
theorem last_eq (h : Holds s ws) (hroom : ws.length < 9) :
    s.i.getLsbD 7=decide (ws.length=8) := by
  have hbit : ∀ n : Fin 9, (BitVec.ofNat 9 (2^n.val-1)).getLsbD 7=decide (n.val=8) := by decide
  rw [h.index]
  exact hbit ⟨ws.length,hroom⟩

/-- A word is shifted in from below. -/
theorem holds_push (h : Holds s ws) (hroom : ws.length < 9) {s' : Padder} {v : BitVec 64}
    (hindex : s'.i=s.i.extractLsb' 0 8++1#1) (hout : s'.out=s.out.extractLsb' 0 512++v) :
    Holds s' (ws++[v]) := by
  have hnext : ∀ n : Fin 9, (BitVec.ofNat 9 (2^n.val-1)).extractLsb' 0 8++1#1=
      BitVec.ofNat 9 (2^(n.val+1)-1) := by
    decide
  have hlength : (ws++[v]).length=ws.length+1 := by rw [List.length_append]; rfl
  refine ⟨by omega,?_,fun k hk => ?_⟩
  · rw [hindex,h.index,hlength]
    exact hnext ⟨ws.length,hroom⟩
  · rw [hout]
    apply BitVec.eq_of_getLsbD_eq
    intro j hj
    rw [getLsbD_lane _ hj,BitVec.getLsbD_append,hlength]
    rcases Nat.lt_or_ge k ws.length with hlt | hge
    · have hplace : 64*(ws.length+1-1-k)+j-64=64*(ws.length-1-k)+j := by omega
      rw [if_neg (by omega),BitVec.getLsbD_extractLsb',decide_eq_true (by omega),Bool.true_and,
        Nat.zero_add,hplace,←getLsbD_lane _ hj,h.words k hlt,List.getElem_append_left hlt]
    · obtain rfl : k=ws.length := by omega
      rw [if_pos (by omega),List.getElem_concat_length rfl]
      congr 1
      omega

theorem holds_nil {s' : Padder} (hindex : s'.i=0) : Holds s' [] :=
  ⟨Nat.zero_le 9,hindex,fun k hk => absurd hk (Nat.not_lt_zero k)⟩

/-- The words of a full buffer reach the permutation in the order of the message. -/
theorem getD_block (h : Holds s ws) (hfull : ws.length=9) {k z : ℕ} (hk : k < 9) (hz : z < 64) :
    (bitsOf ws).getD (64*k+z) false=(lane 64 (8-k) (reordered 9 s.out)).getLsbD z := by
  have hword : lane 64 (8-k) (reordered 9 s.out)=swapped (lane 64 (8-k) s.out) :=
    lane_pack (w:=64) (fun w : Fin 9 => swapped (lane 64 w s.out)) ⟨8-k,by omega⟩
  have hbuffer := h.words k (by omega)
  have hplace : ws.length-1-k=8-k := by omega
  rw [hplace] at hbuffer
  rw [getD_bitsOf (by omega) hz,hword,hbuffer]

end Buffer

section Invariant

/-- What the words of the acknowledged blocks and of the buffer are, before the last word, while
the buffer is filled with zeros, and afterwards. -/
inductive Stream (m : List Bool) (bs : List (List (BitVec 64))) (ws : List (BitVec 64)) :
    Bool → Bool → Prop
  | opened : bitsOf (bs.flatten++ws)=m → Stream m bs ws false false
  | filling (q : ℕ) : ws.length < 9 → 576*bs.length ≤ m.length →
      bitsOf (bs.flatten++ws)=m++true::List.replicate (q+1) false → Stream m bs ws true false
  | full (done : Bool) : ws.length=9 → bitsOf (bs.flatten++ws)=Sponge.pad 576 m →
      Stream m bs ws true done
  | ended : ws=[] → bitsOf bs.flatten=Sponge.pad 576 m → Stream m bs ws true true

section Streams

variable {m : List Bool} {bs : List (List (BitVec 64))} {ws : List (BitVec 64)} {done : Bool}

theorem Stream.before_last (h : Stream m bs ws false done) :
    done=false ∧ bitsOf (bs.flatten++ws)=m := by
  cases h with
  | opened hbits => exact ⟨rfl,hbits⟩

theorem Stream.of_full (h : Stream m bs ws true done) (hfull : ws.length=9) :
    bitsOf (bs.flatten++ws)=Sponge.pad 576 m := by
  cases h with
  | filling q hroom => omega
  | full done _ hbits => exact hbits
  | ended hnil => exact absurd hfull (by rw [hnil]; decide)

/-- Outside a full buffer, the zeros come until the last block is complete. -/
theorem Stream.of_room (h : Stream m bs ws true done) (hroom : ws.length < 9) :
    done=true ∧ ws=[] ∧ bitsOf bs.flatten=Sponge.pad 576 m ∨
      done=false ∧ 576*bs.length ≤ m.length ∧
        ∃ q, bitsOf (bs.flatten++ws)=m++true::List.replicate (q+1) false := by
  cases h with
  | filling q _ hstart hbits => exact .inr ⟨rfl,hstart,q,hbits⟩
  | full done hfull => omega
  | ended hnil hbits => exact .inl ⟨rfl,hnil,hbits⟩

end Streams

/-- State of the core after a message `m`, with acknowledged blocks, words in the buffer and a
phase of the permutation. -/
structure Inv (s : State) (m : List Bool) (bs : List (List (BitVec 64))) (ws : List (BitVec 64))
    (c : ℕ) : Prop where
  blocks : ∀ b∈bs, b.length=9
  holds : Holds s.padder ws
  computes : Computes s.f (absorbed (bs.map bitsOf)) c
  same : s.state=s.padder.state
  stream : Stream m bs ws s.padder.state s.padder.done
  index : s.i=if s.padder.done && ws.isEmpty then s.f.i else 0
  ready : s.out_ready=(s.padder.done && ws.isEmpty && decide (c=12))

theorem inv_reset : Inv reset [] [] [] 12 where
  blocks := fun b hb => absurd hb List.not_mem_nil
  holds := holds_nil rfl
  computes := by
    have hzero : lanes 0=fun _ _ => 0 := by
      funext x y
      rw [lanes_eq,lane_zero]
    exact ⟨by decide,Nat.le_refl 12,rfl,rfl,hzero⟩
  same := rfl
  stream := Stream.opened rfl
  index := rfl
  ready := rfl

variable {s : State} {m : List Bool} {bs : List (List (BitVec 64))} {ws : List (BitVec 64)} {c : ℕ}

theorem f_ack_eq (h : Inv s m bs ws c) : f_ack s=(decide (ws.length=9) && decide (c=12)) := by
  have hends := h.computes.ends
  rw [f_ack,FPermutation.accept,buffer_full_eq h.holds,h.computes.calculating]
  congr 1
  rw [←decide_not]
  exact decide_eq_decide.mpr (by omega)

/-- After the last word of a message, `is_last` means nothing; before, it comes with a word. -/
theorem careful_full (h : Inv s m bs ws c) {i : Input} (hi : Careful s i)
    (hfull : s.padder.buffer_full=true) : (i.is_last || s.padder.state)=s.padder.state := by
  cases hlast : i.is_last with
  | false => rfl
  | true =>
    cases hstate : s.padder.state with
    | true => rfl
    | false =>
      have hroom := (hi hlast (h.same.trans hstate)).2
      rw [hfull] at hroom
      exact absurd hroom Bool.true_eq_false_eq_False

/-- A cycle in which the permutation takes the buffer. -/
theorem inv_ack (h : Inv s m bs ws 12) (hnine : ws.length=9) {i : Input} (hi : Careful s i) :
    Inv (step s i) (m++given s i) (bs++[ws]) [] 1 := by
  have hfull : s.padder.buffer_full=true := by rw [buffer_full_eq h.holds,decide_eq_true hnine]
  have hack : f_ack s=true := by rw [f_ack_eq h,decide_eq_true hnine]; rfl
  have haccept : s.padder.accept i=false := by
    rw [Padder.accept,hfull,Bool.not_true,Bool.and_false]
  have hupdate : s.padder.update i=false := by
    rw [Padder.update,haccept,hfull,Bool.not_true,Bool.and_false,Bool.or_false,Bool.false_and]
  have hgiven : m++given s i=m := by
    rw [given,haccept,if_neg Bool.false_ne_true,List.append_nil]
  have hempty : ws.isEmpty=false := by
    cases ws with
    | nil => exact absurd hnine (by decide)
    | cons w ws => rfl
  have hidle : s.i=0 := by rw [h.index,hempty,Bool.and_false,if_neg Bool.false_ne_true]
  have hflat : (bs++[ws]).flatten++[]=bs.flatten++ws := by
    rw [List.append_nil,List.flatten_append,List.flatten_singleton]
  have hpadder : (step s i).padder.state=s.padder.state := careful_full h hi hfull
  have hdone : (step s i).padder.done=s.padder.state := by
    show (s.padder.state && s.padder.buffer_full || s.padder.done)=_
    rw [hfull,Bool.and_true]
    have hstream := h.stream
    cases hstate : s.padder.state with
    | true => rfl
    | false =>
      rw [hstate] at hstream
      exact hstream.before_last.1
  have hstream : Stream m (bs++[ws]) [] (step s i).padder.state (step s i).padder.done := by
    have hbefore := h.stream
    rw [hpadder,hdone]
    cases hstate : s.padder.state with
    | false =>
      rw [hstate] at hbefore
      exact Stream.opened (hflat ▸ hbefore.before_last.2)
    | true =>
      rw [hstate] at hbefore
      refine Stream.ended rfl ?_
      rw [←List.append_nil (bs++[ws]).flatten,hflat]
      exact hbefore.of_full hnine
  rw [hgiven]
  constructor
  · intro b hb
    rcases List.mem_append.mp hb with hold | hnew
    · exact h.blocks b hold
    · rw [List.mem_singleton.mp hnew,hnine]
  · refine holds_nil ?_
    show (if f_ack s || s.padder.update i then (if f_ack s then 0 else _) else s.padder.i)=_
    rw [hack,Bool.true_or,if_pos rfl,if_pos rfl]
  · have hmap : absorbed ((bs++[ws]).map bitsOf)=
        permute (mix (absorbed (bs.map bitsOf)) (bitsOf ws)) := by
      rw [List.map_append]
      exact Sponge.absorb_concat ..
    have hlength : (bitsOf ws).length=576 := by rw [length_bitsOf,hnine]
    rw [hmap]
    show Computes (s.f.step (padder_out s) s.padder.buffer_full) _ 1
    rw [hfull,←lanes_round_in h.computes (fun k z hk hz => getD_block h.holds hnine hk hz) hlength]
    exact computes_accept h.computes _
  · rw [hpadder,←h.same]
    show (i.is_last || s.state)=s.state
    rw [h.same]
    exact careful_full h hi hfull
  · exact hstream
  · show s.i.extractLsb' 0 10++BitVec.ofBool (s.state && f_ack s)=
      if (step s i).padder.done && true then
        s.f.i.extractLsb' 0 10++BitVec.ofBool (s.f.accept s.padder.buffer_full) else 0
    have hf : s.f.accept s.padder.buffer_full=true := hack
    rw [hidle,hack,hdone,h.same,h.computes.index,hf]
    cases s.padder.state <;> decide
  · show (s.i.getLsbD 10 || s.out_ready)=((step s i).padder.done && true && decide (1=12))
    rw [hidle,h.ready,hempty,Bool.and_false,Bool.false_and,Bool.or_false,decide_eq_false (by decide),
      Bool.and_false]
    decide

/-- Cycles until the output is announced, once the last word is there. -/
def remaining (s : State) (ws : List (BitVec 64)) (c : ℕ) : ℕ :=
  if s.padder.done && ws.isEmpty then 12-c else max (9-ws.length) (12-c)+12

/-- A cycle in which the permutation takes nothing. -/
theorem inv_wait (h : Inv s m bs ws c) (hack : f_ack s=false) {i : Input} {m' : List Bool}
    {ws' : List (BitVec 64)} (hholds : Holds (step s i).padder ws')
    (hstream : Stream m' bs ws' (step s i).padder.state (step s i).padder.done)
    (hends : ((step s i).padder.done && ws'.isEmpty)=(s.padder.done && ws.isEmpty)) :
    Inv (step s i) m' bs ws' (min (c+1) 12) := by
  have hstarted := h.computes.started
  have hle := h.computes.ends
  have haccept : s.f.accept s.padder.buffer_full=false := hack
  have hshift : (step s i).f.i=s.f.i.extractLsb' 0 10++0#1 := by
    show s.f.i.extractLsb' 0 10++BitVec.ofBool (s.f.accept s.padder.buffer_full)=_
    rw [haccept]
    rfl
  have htop : (step s i).i=s.i.extractLsb' 0 10++0#1 := by
    show s.i.extractLsb' 0 10++BitVec.ofBool (s.state && f_ack s)=_
    rw [hack,Bool.and_false]
    rfl
  constructor
  · exact h.blocks
  · exact hholds
  · show Computes (s.f.step (padder_out s) s.padder.buffer_full) _ _
    rcases Nat.lt_or_ge c 12 with hlt | hge
    · rw [Nat.min_eq_left hlt]
      exact computes_step h.computes hlt _ _
    · obtain rfl : c=12 := by omega
      have hroom : s.padder.buffer_full=false := by
        rw [buffer_full_eq h.holds]
        rw [f_ack_eq h] at hack
        exact (Bool.and_true _).symm.trans hack
      rw [hroom]
      exact computes_idle h.computes _
  · show (i.is_last || s.state)=(i.is_last || s.padder.state)
    rw [h.same]
  · exact hstream
  · rw [hends,htop,hshift,h.index]
    cases s.padder.done && ws.isEmpty with
    | true => rfl
    | false =>
      rw [if_neg Bool.false_ne_true,if_neg Bool.false_ne_true]
      decide
  · rw [hends]
    show (s.i.getLsbD 10 || s.out_ready)=_
    rw [h.ready,h.index]
    cases s.padder.done && ws.isEmpty with
    | true =>
      have hlast : ∀ k : Fin 13, 1 ≤ k.val → ((1#11<<<(k.val-1)).getLsbD 10 || decide (k.val=12))=
          decide (min (k.val+1) 12=12) := by
        decide
      rw [if_pos rfl,h.computes.index,Bool.true_and,Bool.true_and]
      exact hlast ⟨c,Nat.lt_succ_of_le hle⟩ hstarted
    | false =>
      rw [if_neg Bool.false_ne_true,Bool.false_and,Bool.false_and,Bool.or_false]
      decide

/-- The word of a cycle in which the buffer is updated. -/
theorem holds_step (h : Inv s m bs ws c) (hroom : ws.length < 9) {i : Input}
    (hupdate : s.padder.update i=true) : Holds (step s i).padder (ws++[s.padder.v1 i]) := by
  have hack : f_ack s=false := by
    rw [f_ack_eq h,decide_eq_false (by omega),Bool.false_and]
  refine holds_push h.holds hroom ?_ ?_
  · show (if f_ack s || s.padder.update i then (if f_ack s then 0 else _) else _)=_
    rw [hack,hupdate,Bool.or_true,if_pos rfl,if_neg Bool.false_ne_true]
  · show (if s.padder.update i then _ else _)=_
    rw [if_pos hupdate]

/-- Without an update and without the permutation, the buffer stays. -/
theorem holds_stay (h : Inv s m bs ws c) (hack : f_ack s=false) {i : Input}
    (hupdate : s.padder.update i=false) : Holds (step s i).padder ws := by
  have hindex : (step s i).padder.i=s.padder.i := by
    show (if f_ack s || s.padder.update i then _ else s.padder.i)=_
    rw [hack,hupdate,Bool.or_false,if_neg Bool.false_ne_true]
  have hout : (step s i).padder.out=s.padder.out := by
    show (if s.padder.update i then _ else s.padder.out)=_
    rw [if_neg (Bool.eq_false_iff.mp hupdate)]
  refine ⟨h.holds.fits,hindex.trans h.holds.index,fun k hk => ?_⟩
  rw [hout,h.holds.words k hk]

theorem length_flatten (h : Inv s m bs ws c) : bs.flatten.length=9*bs.length := by
  rw [List.length_flatten,List.map_congr_left (g:=fun _ => 9) h.blocks]
  simp [Nat.mul_comm]

/-- The last word of a block ends with a one. -/
def closed (n : ℕ) (v : BitVec 64) : BitVec 64 := if n=8 then setBit v 7 true else v

theorem setBit_closed (n : ℕ) (v : BitVec 64) :
    setBit v 7 (v.getLsbD 7 || decide (n=8))=closed n v := by
  unfold closed
  split_ifs with hlast
  · rw [decide_eq_true hlast,Bool.or_true]
  · rw [decide_eq_false hlast,Bool.or_false,setBit_getLsbD]

/-- One more word of zeros after the one of the padding. -/
theorem stream_closed (hflat : bs.flatten.length=9*bs.length) (hroom : ws.length < 9)
    (hstart : 576*bs.length ≤ m.length) {v : BitVec 64} {q : ℕ}
    (hbits : bitsOf (bs.flatten++(ws++[v]))=m++true::List.replicate (q+1) false) :
    Stream m bs (ws++[closed ws.length v]) true false := by
  have hlength : ∀ v : BitVec 64, (ws++[v]).length=ws.length+1 := by
    intro v
    rw [List.length_append]
    rfl
  unfold closed
  split_ifs with hlast
  · refine Stream.full false (by rw [hlength]; omega) ?_
    have htotal := congrArg List.length hbits
    rw [length_bitsOf,List.length_append,hflat,hlength,List.length_append,List.length_cons,
      List.length_replicate] at htotal
    have hne : wordBits v≠[] := by
      intro hnil
      have hzero := length_wordBits v
      rw [hnil] at hzero
      exact absurd hzero (by decide)
    rw [←pad_of_last (n:=bs.length) (q:=q) (by omega) hstart,←hbits,←List.append_assoc,
      ←List.append_assoc,bitsOf_concat,bitsOf_concat,wordBits_setBit,
      List.dropLast_append_of_ne_nil hne,List.append_assoc]
  · exact Stream.filling q (by rw [hlength]; omega) hstart hbits

/-- The cycle in which the last word is taken. -/
theorem inv_last (h : Inv s m bs ws c) (hstate : s.padder.state=false) {i : Input}
    (hlast : i.is_last=true) (hready : i.in_ready=true) (hroom : ws.length < 9) :
    Inv (step s i) (m++given s i) bs (ws++[closed ws.length (padder1 i.word i.byte_num)])
      (min (c+1) 12) := by
  have hstream := h.stream
  rw [hstate] at hstream
  rcases hstream.before_last with ⟨hdone,hbits⟩
  have hfull : s.padder.buffer_full=false := by
    rw [buffer_full_eq h.holds,decide_eq_false (by omega)]
  have haccept : s.padder.accept i=true := by
    rw [Padder.accept,hstate,hready,hfull]
    rfl
  have hupdate : s.padder.update i=true := by
    rw [Padder.update,haccept,hdone]
    rfl
  have hack : f_ack s=false := by rw [f_ack_eq h,decide_eq_false (by omega),Bool.false_and]
  have hv : s.padder.v1 i=closed ws.length (padder1 i.word i.byte_num) := by
    rw [Padder.v1,hstate,hlast,if_neg Bool.false_ne_true,if_neg Bool.true_eq_false_eq_False,
      last_eq h.holds hroom]
    exact setBit_closed _ _
  have hgiven : given s i=(wordBits i.word).take (8*i.byte_num.toNat) := by
    rw [given,haccept,hlast,if_pos rfl,if_pos rfl]
  have hdone' : (step s i).padder.done=false := by
    show (s.padder.state && _ || s.padder.done)=_
    rw [hstate,hdone]
    rfl
  have hn := i.byte_num.isLt
  have htotal := congrArg List.length hbits
  rw [length_bitsOf,List.length_append,length_flatten h] at htotal
  have hnext : Stream (m++given s i) bs (ws++[closed ws.length (padder1 i.word i.byte_num)])
      true false := by
    refine stream_closed (q:=62-8*i.byte_num.toNat) (length_flatten h) hroom ?_ ?_
    · rw [List.length_append]
      omega
    · have hq : 63-8*i.byte_num.toNat=62-8*i.byte_num.toNat+1 := by omega
      rw [←List.append_assoc,bitsOf_concat,hbits,wordBits_padder1,hgiven,List.append_assoc,hq]
  refine inv_wait h hack (hv ▸ holds_step h hroom hupdate) ?_ ?_
  · rw [hdone']
    show Stream _ _ _ (i.is_last || s.padder.state) false
    rw [hlast,Bool.true_or]
    exact hnext
  · rw [hdone',hdone]
    rfl

/-- A cycle in which a word before the last one is taken. -/
theorem inv_word (h : Inv s m bs ws c) (hstate : s.padder.state=false) {i : Input}
    (hlast : i.is_last=false) (hready : i.in_ready=true) (hroom : ws.length < 9) :
    Inv (step s i) (m++given s i) bs (ws++[i.word]) (min (c+1) 12) := by
  have hstream := h.stream
  rw [hstate] at hstream
  rcases hstream.before_last with ⟨hdone,hbits⟩
  have hfull : s.padder.buffer_full=false := by
    rw [buffer_full_eq h.holds,decide_eq_false (by omega)]
  have haccept : s.padder.accept i=true := by
    rw [Padder.accept,hstate,hready,hfull]
    rfl
  have hupdate : s.padder.update i=true := by
    rw [Padder.update,haccept,hdone]
    rfl
  have hack : f_ack s=false := by rw [f_ack_eq h,decide_eq_false (by omega),Bool.false_and]
  have hv : s.padder.v1 i=i.word := by
    rw [Padder.v1,hstate,hlast,if_neg Bool.false_ne_true,if_pos rfl]
  have hgiven : given s i=wordBits i.word := by
    rw [given,haccept,hlast,if_pos rfl,if_neg Bool.false_ne_true]
  have hdone' : (step s i).padder.done=false := by
    show (s.padder.state && _ || s.padder.done)=_
    rw [hstate,hdone]
    rfl
  refine inv_wait h hack (hv ▸ holds_step h hroom hupdate) ?_ ?_
  · rw [hdone']
    show Stream _ _ _ (i.is_last || s.padder.state) false
    rw [hlast,hstate,hgiven]
    refine Stream.opened ?_
    rw [←List.append_assoc,bitsOf_concat,hbits]
  · rw [hdone',hdone]
    rfl

/-- A cycle in which the padder fills its buffer with zeros. -/
theorem inv_fill (h : Inv s m bs ws c) (hstate : s.padder.state=true)
    (hdone : s.padder.done=false) (hroom : ws.length < 9) (i : Input) :
    Inv (step s i) (m++given s i) bs (ws++[closed ws.length 0]) (min (c+1) 12) := by
  have hstream := h.stream
  rw [hstate] at hstream
  have hfull : s.padder.buffer_full=false := by
    rw [buffer_full_eq h.holds,decide_eq_false (by omega)]
  have haccept : s.padder.accept i=false := by
    rw [Padder.accept,hstate]
    rfl
  have hupdate : s.padder.update i=true := by
    rw [Padder.update,haccept,hstate,hfull,hdone]
    rfl
  have hack : f_ack s=false := by rw [f_ack_eq h,decide_eq_false (by omega),Bool.false_and]
  have hv : s.padder.v1 i=closed ws.length 0 := by
    rw [Padder.v1,hstate,if_pos rfl,last_eq h.holds hroom,←setBit_closed]
    rfl
  have hgiven : m++given s i=m := by
    rw [given,haccept,if_neg Bool.false_ne_true,List.append_nil]
  have hdone' : (step s i).padder.done=false := by
    show (s.padder.state && s.padder.buffer_full || s.padder.done)=_
    rw [hfull,hdone,Bool.and_false]
    rfl
  rw [hgiven]
  refine inv_wait h hack (hv ▸ holds_step h hroom hupdate) ?_ ?_
  · rw [hdone']
    show Stream _ _ _ (i.is_last || s.padder.state) false
    rw [hstate,Bool.or_true]
    rcases hstream.of_room hroom with ⟨hends,_⟩ | ⟨_,hstart,q,hbits⟩
    · rw [hdone] at hends
      exact absurd hends Bool.false_ne_true
    · refine stream_closed (q:=q+64) (length_flatten h) hroom hstart ?_
      rw [←List.append_assoc,bitsOf_concat,hbits,wordBits_zero,List.append_assoc,
        List.cons_append,List.replicate_append_replicate]
  · rw [hdone',hdone]
    rfl

/-- A cycle in which the buffer stays. -/
theorem inv_rest (h : Inv s m bs ws c) (hack : f_ack s=false) {i : Input}
    (haccept : s.padder.accept i=false) (hlast : (i.is_last || s.padder.state)=s.padder.state)
    (hrest : s.padder.state=true → ws.length=9 ∨ s.padder.done=true) :
    Inv (step s i) (m++given s i) bs ws (min (c+1) 12) := by
  have hstream := h.stream
  have hfits := h.holds.fits
  have hfull := buffer_full_eq h.holds
  have hupdate : s.padder.update i=false := by
    rw [Padder.update,haccept,Bool.false_or,hfull]
    cases hstate : s.padder.state with
    | false => rfl
    | true =>
      rcases hrest hstate with hnine | hdone
      · rw [decide_eq_true hnine]
        rfl
      · rw [hdone,Bool.not_true,Bool.and_false]
  have hgiven : m++given s i=m := by
    rw [given,haccept,if_neg Bool.false_ne_true,List.append_nil]
  have hdone' : (step s i).padder.done=
      (s.padder.state && decide (ws.length=9) || s.padder.done) := by
    rw [←hfull]
    rfl
  have hstate' : (step s i).padder.state=s.padder.state := hlast
  rw [hgiven]
  refine inv_wait h hack (holds_stay h hack hupdate) ?_ ?_
  · rw [hstate',hdone']
    cases hstate : s.padder.state with
    | false =>
      rw [hstate] at hstream
      rcases hstream.before_last with ⟨hdone,hbits⟩
      rw [hdone]
      exact Stream.opened hbits
    | true =>
      rw [hstate] at hstream
      rcases Nat.lt_or_ge ws.length 9 with hroom | hge
      · rcases hstream.of_room hroom with ⟨hdone,hnil,hbits⟩ | ⟨hdone,_⟩
        · rw [hdone,Bool.or_true]
          exact Stream.ended hnil hbits
        · rcases hrest hstate with hnine | htrue
          · omega
          · rw [hdone] at htrue
            exact absurd htrue Bool.false_ne_true
      · exact Stream.full _ (by omega) (hstream.of_full (by omega))
  · rw [hdone']
    cases ws with
    | nil => rw [decide_eq_false (by decide),Bool.and_false,Bool.false_or]
    | cons w ws => rw [List.isEmpty_cons,Bool.and_false,Bool.and_false]

theorem remaining_filling (hends : (s.padder.done && ws.isEmpty)=false) :
    remaining s ws c=max (9-ws.length) (12-c)+12 := by
  rw [remaining,hends,if_neg Bool.false_ne_true]

theorem remaining_ended (hends : (s.padder.done && ws.isEmpty)=true) :
    remaining s ws c=12-c := by
  rw [remaining,if_pos hends]

/-- What a cycle before the end of the last word leads to. -/
theorem inv_open (h : Inv s m bs ws c) (hack : f_ack s=false) {i : Input} (hi : Careful s i)
    (hstate : s.padder.state=false) : ∃ bs' ws' c', Inv (step s i) (m++given s i) bs' ws' c' := by
  have hfits := h.holds.fits
  have hfull := buffer_full_eq h.holds
  by_cases htake : i.in_ready=true ∧ ws.length < 9
  · cases hlast : i.is_last with
    | false => exact ⟨_,_,_,inv_word h hstate hlast htake.1 htake.2⟩
    | true => exact ⟨_,_,_,inv_last h hstate hlast htake.1 htake.2⟩
  · have hlast : i.is_last=false := by
      cases hlast : i.is_last with
      | false => rfl
      | true =>
        rcases hi hlast (h.same.trans hstate) with ⟨hready,hroom⟩
        rw [hfull] at hroom
        have hne := of_decide_eq_false hroom
        exact absurd ⟨hready,by omega⟩ htake
    have haccept : s.padder.accept i=false := by
      rw [Padder.accept,hfull]
      rcases Nat.lt_or_ge ws.length 9 with hroom | hge
      · rw [Bool.eq_false_iff.mpr fun hready => htake ⟨hready,hroom⟩,Bool.and_false]
        rfl
      · rw [decide_eq_true (by omega),Bool.not_true,Bool.and_false]
    refine ⟨_,_,_,inv_rest h hack haccept ?_ fun htrue => ?_⟩
    · rw [hlast,Bool.false_or]
    · rw [hstate] at htrue
      exact absurd htrue Bool.false_ne_true

/-- A cycle after the last word brings the output nearer. -/
theorem inv_close (h : Inv s m bs ws c) (hack : f_ack s=false) (i : Input)
    (hstate : s.padder.state=true) : ∃ bs' ws' c', Inv (step s i) (m++given s i) bs' ws' c' ∧
      remaining (step s i) ws' c' ≤ remaining s ws c-1 := by
  have hfits := h.holds.fits
  have hends := h.computes.ends
  have hstarted := h.computes.started
  have hfull := buffer_full_eq h.holds
  have hstream := h.stream
  rw [hstate] at hstream
  by_cases hfill : s.padder.done=false ∧ ws.length < 9
  · refine ⟨_,_,_,inv_fill h hstate hfill.1 hfill.2 i,?_⟩
    rw [remaining_filling (s:=s) (by rw [hfill.1,Bool.false_and]),remaining_filling (by simp),
      List.length_append,List.length_singleton]
    omega
  · have hrest : ws.length=9 ∨ s.padder.done=true := by
      cases hdone : s.padder.done with
      | true => exact .inr rfl
      | false => exact .inl (by by_contra hne; exact hfill ⟨hdone,by omega⟩)
    have haccept : s.padder.accept i=false := by
      rw [Padder.accept,hstate]
      rfl
    refine ⟨_,_,_,inv_rest h hack haccept (by rw [hstate,Bool.or_true]) fun _ => hrest,?_⟩
    have hdone' : (step s i).padder.done=(decide (ws.length=9) || s.padder.done) := by
      rw [←hfull,←Bool.true_and s.padder.buffer_full,←hstate]
      rfl
    rcases Nat.lt_or_ge ws.length 9 with hroom | hge
    · rcases hstream.of_room hroom with ⟨hdone,hnil,_⟩ | ⟨hdone,_⟩
      · rw [remaining_ended (s:=s) (by rw [hdone,hnil]; rfl),
          remaining_ended (by rw [hdone',hdone,hnil]; rfl)]
        omega
      · exact absurd ⟨hdone,hroom⟩ hfill
    · have hne : ws.isEmpty=false := by
        cases ws with
        | nil => exact absurd hge (by decide)
        | cons w ws => rfl
      rw [f_ack_eq h,decide_eq_true (by omega),Bool.true_and] at hack
      have hbusy := of_decide_eq_false hack
      rw [remaining_filling (s:=s) (by rw [hne,Bool.and_false]),
        remaining_filling (by rw [hne,Bool.and_false])]
      omega

/-- What a cycle does to the blocks and the buffer, and how much nearer it brings the output. -/
theorem inv_step (h : Inv s m bs ws c) {i : Input} (hi : Careful s i) :
    ∃ bs' ws' c', Inv (step s i) (m++given s i) bs' ws' c' ∧
      (s.padder.state=true → remaining (step s i) ws' c' ≤ remaining s ws c-1) := by
  cases hack : f_ack s with
  | false =>
    cases hstate : s.padder.state with
    | false =>
      rcases inv_open h hack hi hstate with ⟨bs',ws',c',hinv⟩
      exact ⟨bs',ws',c',hinv,fun hfalse => absurd hfalse Bool.false_ne_true⟩
    | true =>
      rcases inv_close h hack i hstate with ⟨bs',ws',c',hinv,hless⟩
      exact ⟨bs',ws',c',hinv,fun _ => hless⟩
  | true =>
    rw [f_ack_eq h,Bool.and_eq_true,decide_eq_true_eq,decide_eq_true_eq] at hack
    rcases hack with ⟨hnine,rfl⟩
    refine ⟨_,_,_,inv_ack h hnine hi,fun hstate => ?_⟩
    have hne : ws.isEmpty=false := by
      cases ws with
      | nil => exact absurd hnine (by decide)
      | cons w ws => rfl
    have hdone : (step s i).padder.done=true := by
      show (s.padder.state && s.padder.buffer_full || s.padder.done)=true
      rw [hstate,buffer_full_eq h.holds,decide_eq_true hnine]
      rfl
    rw [remaining_filling (s:=s) (by rw [hne,Bool.and_false]),
      remaining_ended (by rw [hdone]; rfl)]
    omega

end Invariant

section Runs

variable {is : List Input}

theorem message_concat (is : List Input) (i : Input) :
    message (is++[i])=message is++given (Machine.after step reset is) i := by
  rw [message,Machine.driven_append,List.flatten_append]
  exact congrArg (message is++·) (List.append_nil _)

theorem inv_run (is : List Input) (hcareful : Machine.Meets step Careful reset is) :
    ∃ bs ws c, Inv (Machine.after step reset is) (message is) bs ws c := by
  induction is using List.reverseRecOn with
  | nil => exact ⟨[],[],12,inv_reset⟩
  | append_singleton is i ih =>
    have hsplit := (Machine.meets_append step Careful reset is [i]).mp hcareful
    rcases ih hsplit.1 with ⟨bs,ws,c,hinv⟩
    rcases inv_step hinv hsplit.2.1 with ⟨bs',ws',c',hnext,_⟩
    rw [Machine.after_concat,message_concat]
    exact ⟨bs',ws',c',hnext⟩

/-- Bits of the output word, from its upper byte down, each byte from its lowest bit up. -/
def digest (v : BitVec 512) : List Bool :=
  (List.range 512).map fun k => v.getLsbD (8*(63-k/8)+k%8)

/-- A byte of the output word is the byte of a lane at the same place from the other end. -/
theorem getLsbD_out (s : State) {q b r : ℕ} (hq : q < 8) (hb : b < 8) (hr : r < 8) :
    (out s).getLsbD (64*(7-q)+(8*(7-b)+r))=s.f.out.getLsbD (64*(24-q)+(8*b+r)) := by
  have hword : lane 64 (7-q) (out s)=swapped (lane 64 (7-q) (out1 s)) :=
    lane_pack (w:=64) (fun w : Fin 8 => swapped (lane 64 w (out1 s))) ⟨7-q,by omega⟩
  have hbyte : (swapped (lane 64 (7-q) (out1 s))).getLsbD (8*(7-b)+r)=
      (lane 8 (7-(7-b)) (lane 64 (7-q) (out1 s))).getLsbD r :=
    getLsbD_pack (w:=8) (fun b : Fin 8 => lane 8 (7-b.val) (lane 64 (7-q) (out1 s)))
      ⟨7-b,by omega⟩ hr
  have hplace : 1088+(64*(7-q)+(8*(7-(7-b))+r))=64*(24-q)+(8*b+r) := by omega
  rw [←getLsbD_lane _ (by omega),hword,hbyte,getLsbD_lane _ hr,getLsbD_lane _ (by omega),out1,
    BitVec.getLsbD_extractLsb',decide_eq_true (by omega),Bool.true_and,hplace]

theorem digest_out (s : State) : digest (out s)=(List.range 512).map (stateBit (lanes s.f.out)) := by
  apply List.map_congr_left
  intro k hk
  obtain ⟨q,b,r,hq,hb,hr,rfl⟩ : ∃ q b r, q < 8 ∧ b < 8 ∧ r < 8 ∧ k=64*q+(8*b+r) := by
    have hlt : k < 512 := List.mem_range.mp hk
    exact ⟨k/64,k%64/8,k%8,by omega,by omega,by omega,by omega⟩
  have hdiv : (64*q+(8*b+r))/64=q := by omega
  have hmod : (64*q+(8*b+r))%64=8*b+r := by omega
  have hout : 8*(63-(64*q+(8*b+r))/8)+(64*q+(8*b+r))%8=64*(7-q)+(8*(7-b)+r) := by omega
  have hlane : 5*(Fin.ofNat 5 (q/5)).val+(Fin.ofNat 5 q).val=q := by
    show 5*(q/5%5)+q%5=q
    omega
  rw [stateBit,hdiv,hmod,hout,getLsbD_out s hq hb hr,lanes_eq,hlane,getLsbD_lane _ (by omega)]

theorem bitsOf_flatten (bs : List (List (BitVec 64))) :
    bitsOf bs.flatten=(bs.map bitsOf).flatten := by
  induction bs with
  | nil => rfl
  | cons b bs ih => rw [List.flatten_cons,bitsOf_append,ih,List.map_cons,List.flatten_cons]

/-- When the output is announced, it is the hash. -/
theorem digest_of_ready {s : State} {m : List Bool} {bs : List (List (BitVec 64))}
    {ws : List (BitVec 64)} {c : ℕ} (h : Inv s m bs ws c) (hready : s.out_ready=true) :
    s.state=true ∧ digest (out s)=Keccak.hash 576 512 m := by
  rw [h.ready,Bool.and_eq_true,Bool.and_eq_true,decide_eq_true_eq,List.isEmpty_iff] at hready
  rcases hready with ⟨⟨hdone,rfl⟩,rfl⟩
  have hstream := h.stream
  rw [hdone] at hstream
  cases hstate : s.padder.state with
  | false =>
    rw [hstate] at hstream
    exact absurd hstream.before_last.1 Bool.true_eq_false_eq_False
  | true =>
    rw [hstate] at hstream
    refine ⟨h.same.trans hstate,?_⟩
    rcases hstream.of_room (by decide) with ⟨_,_,hbits⟩ | ⟨hopen,_⟩
    · have hnine : ∀ b∈bs.map bitsOf, b.length=576 := by
        intro b hb
        rcases List.mem_map.mp hb with ⟨b',hb',rfl⟩
        rw [length_bitsOf,h.blocks b' hb']
      have hresult : lanes s.f.out=absorbed (bs.map bitsOf) := h.computes.result
      rw [digest_out,Keccak.hash,hresult,←hbits,bitsOf_flatten,Sponge.blocks_flatten (by decide) hnine]
    · exact absurd hopen Bool.true_eq_false_eq_False

/-- After the last word of a message, the output comes nearer in every cycle. -/
theorem ready_of_remaining {s : State} {m : List Bool} {bs : List (List (BitVec 64))}
    {ws : List (BitVec 64)} {c : ℕ} (h : Inv s m bs ws c) (hstate : s.padder.state=true)
    {is : List Input} (hlong : remaining s ws c ≤ is.length) :
    ∃ bs' ws' c', Inv (Machine.after step s is) m bs' ws' c' ∧
      (Machine.after step s is).out_ready=true := by
  induction is generalizing s bs ws c with
  | nil =>
    have hends := h.computes.ends
    have hzero : remaining s ws c=0 := Nat.eq_zero_of_le_zero hlong
    refine ⟨bs,ws,c,h,?_⟩
    cases hend : s.padder.done && ws.isEmpty with
    | false =>
      rw [remaining_filling hend] at hzero
      omega
    | true =>
      rw [remaining_ended hend] at hzero
      show s.out_ready=true
      rw [h.ready,hend,decide_eq_true (by omega)]
      rfl
  | cons i is ih =>
    have hcareful : Careful s i := by
      intro _ hopen
      rw [h.same,hstate] at hopen
      exact absurd hopen Bool.true_eq_false_eq_False
    have hgiven : m++given s i=m := by
      rw [given,Padder.accept,hstate]
      exact List.append_nil m
    rcases inv_step h hcareful with ⟨bs',ws',c',hnext,hless⟩
    rw [hgiven] at hnext
    refine ih hnext ?_ ?_
    · show (i.is_last || s.padder.state)=true
      rw [hstate,Bool.or_true]
    · have hrank := hless hstate
      rw [List.length_cons] at hlong
      omega

/-- The registers of the permutation after reset. -/
def FPermutation.reset : FPermutation := ⟨0,false,0,false⟩

/-- One cycle of the permutation with its two inputs. -/
def FPermutation.next (s : FPermutation) (i : BitVec 576×Bool) : FPermutation := s.step i.1 i.2

theorem computes_run (is : List (BitVec 576×Bool)) :
    ∃ A c, Computes (Machine.after FPermutation.next FPermutation.reset is) A c := by
  refine Machine.after_invariant (P:=fun s => ∃ A c, Computes s A c) (fun s i h => ?_)
    ⟨_,12,inv_reset.computes⟩ is
  rcases h with ⟨A,c,h⟩
  rcases Nat.lt_or_ge c 12 with hlt | hge
  · exact ⟨_,_,computes_step h hlt i.1 i.2⟩
  · have hends := h.ends
    obtain rfl : c=12 := by omega
    cases hready : i.2 with
    | false => exact ⟨_,_,hready ▸ computes_idle h i.1⟩
    | true => exact ⟨_,_,hready ▸ computes_accept h i.1⟩

/-- Eleven cycles after it took a block the permutation is done. -/
theorem lanes_pass {is later : List (BitVec 576×Bool)} {word : BitVec 576}
    (hidle : (Machine.after FPermutation.next FPermutation.reset is).accept true=true)
    (hlong : later.length=11) :
    lanes (Machine.after FPermutation.next FPermutation.reset (is++(word,true)::later)).out=permute
      (lanes ((Machine.after FPermutation.next FPermutation.reset is).round_in word true)) := by
  have hgo : ∀ (n : ℕ) (later : List (BitVec 576×Bool)) (s : FPermutation) (A : Lanes 64) (c : ℕ),
      later.length=n → c+n=12 → Computes s A c →
        Computes (Machine.after FPermutation.next s later) A 12 := by
    intro n
    induction n with
    | zero =>
      intro later s A c hlength hsum h
      rw [List.length_eq_zero_iff.mp hlength]
      obtain rfl : c=12 := by omega
      exact h
    | succ n ih =>
      intro later s A c hlength hsum h
      cases later with
      | nil => exact absurd hlength (Nat.zero_ne_add_one n)
      | cons i later =>
        exact ih later _ A (c+1) (Nat.succ.inj hlength) (by omega) (computes_step h (by omega) _ _)
  rcases computes_run is with ⟨A,c,h⟩
  have hends := h.ends
  rw [FPermutation.accept,h.calculating,Bool.true_and,←decide_not,decide_eq_true_eq] at hidle
  obtain rfl : c=12 := by omega
  rw [Machine.after_append]
  exact (hgo 11 later _ _ 1 hlong rfl (computes_accept h word)).result

theorem lanes_injective : Function.Injective lanes := by
  intro s s' h
  apply BitVec.eq_of_getLsbD_eq
  intro j hj
  obtain ⟨q,z,hq,hz,rfl⟩ : ∃ q z, q < 25 ∧ z < 64 ∧ j=64*(24-q)+z :=
    ⟨24-j/64,j%64,by omega,by omega,by omega⟩
  have hlane := congrFun (congrFun h (Fin.ofNat 5 q)) (Fin.ofNat 5 (q/5))
  have hplace : 5*(Fin.ofNat 5 (q/5)).val+(Fin.ofNat 5 q).val=q := by
    show 5*(q/5%5)+q%5=q
    omega
  rw [lanes_eq,lanes_eq,hplace] at hlane
  rw [←getLsbD_lane s hz,hlane,getLsbD_lane s' hz]

/-- The user gives nothing. -/
def quiet : Input := ⟨0,false,false,0⟩

theorem quiet_careful (s : State) (n : ℕ) : Machine.Meets step Careful s (List.replicate n quiet) := by
  induction n generalizing s with
  | zero => trivial
  | succ n ih => exact ⟨fun hlast => absurd hlast Bool.false_ne_true,ih _⟩

/-- The user gives the empty message. -/
def nothing : Input := ⟨0,true,true,0⟩

theorem nothing_careful : Careful reset nothing := fun _ _ => ⟨rfl,rfl⟩

/-- Whatever the pace at which the user gives a message, the output that the core announces is
its hash. -/
theorem hashes (is : List Input) (hcareful : Machine.Meets step Careful reset is)
    (hready : (Machine.after step reset is).out_ready=true) :
    (Machine.after step reset is).state=true ∧
      digest (out (Machine.after step reset is))=Keccak.hash 576 512 (message is) := by
  rcases inv_run is hcareful with ⟨bs,ws,c,hinv⟩
  exact digest_of_ready hinv hready

theorem hashes_nothing : digest (out (Machine.after step reset (nothing::List.replicate 23 quiet)))=
    Keccak.hash 576 512 (message (nothing::List.replicate 23 quiet)) := by
  have hready : (Machine.after step reset (nothing::List.replicate 23 quiet)).out_ready=true := by
    have hinv := inv_last inv_reset rfl (i:=nothing) rfl rfl (by decide)
    rcases @ready_of_remaining _ _ _ _ _ hinv rfl (List.replicate 23 quiet) (by decide) with
      ⟨_,_,_,_,hready⟩
    rw [Machine.after_cons]
    exact hready
  exact (hashes (nothing::List.replicate 23 quiet) ⟨nothing_careful,quiet_careful _ 23⟩ hready).2

/-- The output is there at the latest twenty-three cycles after the last word, and stays. -/
theorem answers_within (before later : List Input) (last : Input)
    (hcareful : Machine.Meets step Careful reset (before++[last])) (hlast : last.is_last=true)
    (hlong : 23 ≤ later.length) :
    (Machine.after step reset (before++last::later)).out_ready=true ∧
      digest (out (Machine.after step reset (before++last::later)))=
        Keccak.hash 576 512 (message (before++[last])) := by
  rcases inv_run _ hcareful with ⟨bs,ws,c,hinv⟩
  have hstate : (Machine.after step reset (before++[last])).padder.state=true := by
    rw [Machine.after_concat]
    show (last.is_last || _)=true
    rw [hlast,Bool.true_or]
  have hrank : remaining (Machine.after step reset (before++[last])) ws c ≤ 23 := by
    have hstarted := hinv.computes.started
    unfold remaining
    split_ifs <;> omega
  rcases ready_of_remaining hinv hstate (Nat.le_trans hrank hlong) with ⟨bs',ws',c',hlater,hready⟩
  rw [List.append_cons,Machine.after_append]
  exact ⟨hready,(digest_of_ready hlater hready).2⟩

theorem answers_nothing :
    (Machine.after step reset ([quiet]++nothing::List.replicate 23 quiet)).out_ready=true :=
  (answers_within [quiet] (List.replicate 23 quiet) nothing
    ⟨fun hlast => absurd hlast Bool.false_ne_true,fun _ _ => ⟨rfl,rfl⟩,trivial⟩ rfl (by decide)).1

/-- A pass of the permutation loses nothing. -/
theorem one_to_one (is is' later later' : List (BitVec 576×Bool)) (word word' : BitVec 576)
    (hidle : (Machine.after FPermutation.next FPermutation.reset is).accept true=true)
    (hidle' : (Machine.after FPermutation.next FPermutation.reset is').accept true=true)
    (hlong : later.length=11) (hlong' : later'.length=11) :
    (Machine.after FPermutation.next FPermutation.reset (is++(word,true)::later)).out=
        (Machine.after FPermutation.next FPermutation.reset (is'++(word',true)::later')).out ↔
      (Machine.after FPermutation.next FPermutation.reset is).round_in word true=
        (Machine.after FPermutation.next FPermutation.reset is').round_in word' true := by
  refine ⟨fun h => ?_,fun h => ?_⟩
  · have hlanes := congrArg lanes h
    rw [lanes_pass hidle hlong,lanes_pass hidle' hlong'] at hlanes
    exact lanes_injective (permute_injective hlanes)
  · apply lanes_injective
    rw [lanes_pass hidle hlong,lanes_pass hidle' hlong',h]

theorem one_to_one_first :
    (Machine.after FPermutation.next FPermutation.reset
        ([]++(0,true)::List.replicate 11 (0,false))).out=
        (Machine.after FPermutation.next FPermutation.reset
          ([]++(1,true)::List.replicate 11 (1,true))).out ↔
      (Machine.after FPermutation.next FPermutation.reset []).round_in 0 true=
        (Machine.after FPermutation.next FPermutation.reset []).round_in 1 true :=
  one_to_one [] [] (List.replicate 11 (0,false)) (List.replicate 11 (1,true)) 0 1 rfl rfl rfl rfl

end Runs

end Pulpissimo.Hwpe.KeccakCore
