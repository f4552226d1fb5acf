import Mathlib.Data.List.GetD
import Pulpissimo.Hwpe.Md5Core
import Pulpissimo.Lib.Machine
import Pulpissimo.Lib.Sponge

/-!
# The hash of the MD5 core

The blocks that are done and the quarters of the next one are an invariant of the core: its
state before the block is the one that the blocks done lead to, and the words at work are those
after as many operations on the block as there were cycles.
-/

namespace Pulpissimo.Hwpe.Md5Core

open Pulpissimo.Md5

section Sessions

/-- The words of a block that is given in quarters, each from its upper end down. -/
def word (q : List (BitVec 128)) (n : ℕ) : BitVec 32 :=
  (q.getD (n/4) 0).extractLsb' (96-32*(n%4)) 32

/-- The hash of a padded text. -/
noncomputable def digest (text : List (BitVec 128)) : BitVec 128 :=
  join (chain ((Sponge.blocks 4 text).map word))

/-- A new text comes without a quarter, and not while a block is worked on. -/
def Careful (s : State) (i : Input) : Prop :=
  i.newtext_i=true → i.load_i=false ∧ s.getdata_state≠4

instance (s : State) (i : Input) : Decidable (Careful s i) := inferInstanceAs (Decidable (_ → _))

/-- The core takes a quarter. -/
def takes (s : State) (i : Input) : Bool := i.load_i && s.getdata_state != 4

/-- What the core shows in a cycle. -/
def shown (s : State) : List (BitVec 128) := if s.ready_o then [s.data_o] else []

/-- The core with what it took and showed since the last new text. -/
structure Session where
  core : State
  text : List (BitVec 128)
  answers : List (BitVec 128)

namespace Session

def reset : Session := ⟨Md5Core.reset,[],[]⟩

variable (w : Session) (i : Input)

def step : Session where
  core := Md5Core.step w.core i
  text := if i.newtext_i then [] else w.text++if takes w.core i then [i.data_i] else []
  answers := if i.newtext_i then [] else w.answers++shown w.core

/-- Blocks that are done. -/
def done : ℕ := w.text.length/4-if w.core.getdata_state=4 then 1 else 0

/-- The blocks `bs` are done, and the quarters `q` of the next one are loaded. -/
structure Inv (bs : List (List (BitVec 128))) (q : List (BitVec 128)) : Prop where
  text : w.text=bs.flatten++q
  whole : ∀ b∈bs, b.length=4
  bounded : q.length ≤ 4
  count : w.core.getdata_state.toNat=q.length
  quarters : ∀ j, j < q.length → w.core.message.extractLsb' (384-128*j) 128=q.getD j 0
  chained : chained w.core=chain (bs.map word)
  generates : w.core.generate_hash=decide (q.length=4)
  waits : q.length < 4 → w.core.round64=0
  round : w.core.round.toNat=w.core.round64.toNat/16
  works : 0 < q.length → working w.core=
    operations sine (word q) w.core.round64.toNat (Md5Core.chained w.core)
  answers : w.answers++shown w.core=
    (List.range bs.length).map fun k => join (chain ((bs.take (k+1)).map word))

theorem inv_reset : Inv reset [] [] where
  text := rfl
  whole := fun _ h => absurd h List.not_mem_nil
  bounded := by decide
  count := rfl
  quarters := fun _ h => absurd h (Nat.not_lt_zero _)
  chained := rfl
  generates := rfl
  waits := fun _ => rfl
  round := rfl
  works := fun h => absurd h (Nat.lt_irrefl _)
  answers := rfl

variable {w} {i} {bs : List (List (BitVec 128))} {q : List (BitVec 128)}

theorem state_eq_iff (h : Inv w bs q) (n : ℕ) (hn : n < 8) :
    w.core.getdata_state=BitVec.ofNat 3 n ↔ q.length=n := by
  rw [←BitVec.toNat_inj,h.count,BitVec.toNat_ofNat,Nat.mod_eq_of_lt hn]

/-- While a block is loaded. -/
theorem not_four (h : Inv w bs q) (hlt : q.length < 4) : (w.core.getdata_state==4)=false :=
  beq_eq_false_iff_ne.mpr fun h4 => Nat.ne_of_lt hlt ((state_eq_iff h 4 (by decide)).mp h4)

theorem finishes_false (h : Inv w bs q) (hlt : q.length < 4) : finishes w.core=false := by
  rw [finishes,not_four h hlt,Bool.false_and]

theorem generates_false (h : Inv w bs q) (hlt : q.length < 4) : w.core.generate_hash=false :=
  h.generates.trans (decide_eq_false (Nat.ne_of_lt hlt))

/-- The words of a block in the message. -/
theorem message_var_eq (h : Inv w bs q) (hfour : q.length=4) {n : ℕ} (hn : n < 16) :
    message_var w.core n=word q n := by
  have hplace : 480-32*n=384-128*(n/4)+(96-32*(n%4)) := by omega
  rw [word,←h.quarters (n/4) (by omega)]
  apply BitVec.eq_of_getLsbD_eq
  intro z hz
  rw [message_var,BitVec.getLsbD_extractLsb',BitVec.getLsbD_extractLsb',BitVec.getLsbD_extractLsb',
    decide_eq_true hz,decide_eq_true (by omega),Bool.true_and,Bool.true_and,Bool.true_and,hplace,
    Nat.add_assoc]

/-- The work of one cycle on a block. -/
theorem operation_step (h : Inv w bs q) (hfour : q.length=4) :
    (⟨w.core.dr,func_out w.core,w.core.br,w.core.cr⟩ : Words)=
      operations sine (word q) (w.core.round64.toNat+1) (Md5Core.chained w.core) := by
  rw [operation_eq w.core h.round fun n hn => message_var_eq h hfour hn,h.works (by omega)]
  rfl

/-- What a cycle without a new text does while a block is loaded. -/
theorem loading_step (h : Inv w bs q) (hlt : q.length < 4) (hnew : i.newtext_i=false) :
    Md5Core.chained (Md5Core.step w.core i)=Md5Core.chained w.core ∧
      working (Md5Core.step w.core i)=Md5Core.chained w.core ∧
      (w.step i).answers++shown (w.step i).core=w.answers++shown w.core := by
  have hfinishes := finishes_false h hlt
  refine ⟨?_,?_,?_⟩
  · rw [chained_step,hfinishes,hnew,if_neg Bool.false_ne_true,if_neg Bool.false_ne_true]
  · rw [working_step,hnew,generates_false h hlt,if_neg Bool.false_ne_true,
      if_neg Bool.false_ne_true]
    split_ifs with hzero
    · rfl
    · have hpos : 0 < q.length := by
        have hne := mt (state_eq_iff h 0 (by decide)).mpr hzero
        omega
      rw [h.works hpos,h.waits hlt]
      rfl
  · show (if i.newtext_i then _ else w.answers++shown w.core)++(if finishes w.core then _ else [])=_
    rw [hnew,hfinishes,if_neg Bool.false_ne_true,if_neg Bool.false_ne_true,List.append_nil]

/-- A new text. -/
theorem inv_newtext (h : Inv w bs q) (hnew : i.newtext_i=true) (hload : i.load_i=false)
    (hlt : q.length < 4) : Inv (w.step i) [] [] := by
  rcases wait_step h.count hlt hload with ⟨hstate,hmessage,hgenerate⟩
  rcases idle_step (i:=i) (generates_false h hlt) (h.waits hlt) with ⟨hround64,hround⟩
  refine ⟨?_,fun _ hb => absurd hb List.not_mem_nil,by decide,?_,
    fun _ hj => absurd hj (Nat.not_lt_zero _),?_,?_,fun _ => hround64,?_,
    fun hpos => absurd hpos (Nat.lt_irrefl _),?_⟩
  · show (if i.newtext_i then [] else _)=_
    rw [hnew]
    rfl
  · show (Md5Core.step w.core i).getdata_state.toNat=_
    rw [hstate,hnew]
    rfl
  · show Md5Core.chained (Md5Core.step w.core i)=_
    rw [chained_step,finishes_false h hlt,hnew]
    rfl
  · exact hgenerate.trans (generates_false h hlt)
  · show (Md5Core.step w.core i).round.toNat=(Md5Core.step w.core i).round64.toNat/16
    rw [hround,hround64]
    rfl
  · show (if i.newtext_i then [] else _)++(if finishes w.core then _ else [])=_
    rw [hnew,finishes_false h hlt]
    rfl

/-- A quarter is loaded. -/
theorem inv_load (h : Inv w bs q) (hnew : i.newtext_i=false) (hload : i.load_i=true)
    (hlt : q.length < 4) : Inv (w.step i) bs (q++[i.data_i]) := by
  rcases load_step h.count hlt hload with ⟨hstate,hmessage,hgenerate⟩
  rcases idle_step (i:=i) (generates_false h hlt) (h.waits hlt) with ⟨hround64,hround⟩
  rcases loading_step h hlt hnew with ⟨hchained,hworking,hanswers⟩
  have hlength : (q++[i.data_i]).length=q.length+1 := List.length_append
  refine ⟨?_,h.whole,by omega,?_,?_,?_,?_,fun _ => hround64,?_,?_,?_⟩
  · show (if i.newtext_i then [] else w.text++if takes w.core i then _ else [])=_
    have htakes : takes w.core i=true := by
      rw [takes,hload,bne,not_four h hlt]
      rfl
    rw [hnew,htakes,if_neg Bool.false_ne_true,if_pos rfl,h.text,List.append_assoc]
  · rw [hlength]
    exact hstate
  · intro j hj
    show (Md5Core.step w.core i).message.extractLsb' _ _=_
    rw [hmessage]
    rw [hlength] at hj
    rcases Nat.lt_or_ge j q.length with hold | hge
    · rw [extract_assign_of_ne _ _ (by omega) (by omega),List.getD_append _ _ _ _ hold]
      exact h.quarters j hold
    · have hj' : j=q.length := by omega
      rw [hj',extract_assign _ _ (by omega),List.getD_append_right _ _ _ _ (Nat.le_refl _),
        Nat.sub_self]
      rfl
  · exact hchained.trans h.chained
  · show (Md5Core.step w.core i).generate_hash=_
    rw [hgenerate,generates_false h hlt,hlength]
    split_ifs with hthree
    · exact (decide_eq_true (by omega)).symm
    · exact (decide_eq_false (by omega)).symm
  · show (Md5Core.step w.core i).round.toNat=(Md5Core.step w.core i).round64.toNat/16
    rw [hround,hround64]
    rfl
  · intro _
    show working (Md5Core.step w.core i)=operations _ _ (Md5Core.step w.core i).round64.toNat
      (Md5Core.chained (Md5Core.step w.core i))
    rw [hworking,hround64,hchained]
    rfl
  · exact hanswers.trans h.answers

/-- A pause between two quarters. -/
theorem inv_wait (h : Inv w bs q) (hnew : i.newtext_i=false) (hload : i.load_i=false)
    (hlt : q.length < 4) : Inv (w.step i) bs q := by
  rcases wait_step h.count hlt hload with ⟨hstate,hmessage,hgenerate⟩
  rcases idle_step (i:=i) (generates_false h hlt) (h.waits hlt) with ⟨hround64,hround⟩
  rcases loading_step h hlt hnew with ⟨hchained,hworking,hanswers⟩
  refine ⟨?_,h.whole,h.bounded,?_,?_,hchained.trans h.chained,hgenerate.trans h.generates,
    fun _ => hround64,?_,?_,hanswers.trans h.answers⟩
  · show (if i.newtext_i then [] else w.text++if takes w.core i then _ else [])=_
    rw [takes,hnew,hload,if_neg Bool.false_ne_true,Bool.false_and,if_neg Bool.false_ne_true,
      List.append_nil,h.text]
  · show (Md5Core.step w.core i).getdata_state.toNat=_
    rw [hstate,hnew]
    exact h.count
  · show ∀ j, j < q.length → (Md5Core.step w.core i).message.extractLsb' _ _=_
    rw [hmessage]
    exact h.quarters
  · show (Md5Core.step w.core i).round.toNat=(Md5Core.step w.core i).round64.toNat/16
    rw [hround,hround64]
    rfl
  · intro _
    show working (Md5Core.step w.core i)=operations _ _ (Md5Core.step w.core i).round64.toNat
      (Md5Core.chained (Md5Core.step w.core i))
    rw [hworking,hround64,hchained]
    rfl

theorem state_of_four (h : Inv w bs q) (hfour : q.length=4) : w.core.getdata_state=4 :=
  (state_eq_iff h 4 (by decide)).mpr hfour

theorem finishes_eq (h : Inv w bs q) (hfour : q.length=4) :
    finishes w.core=hash_generated w.core := by
  rw [finishes,state_of_four h hfour]
  exact Bool.true_and _

/-- While a block is worked on nothing is loaded. -/
theorem text_step (h : Inv w bs q) (hfour : q.length=4) (hnew : i.newtext_i=false) :
    (w.step i).text=w.text := by
  show (if i.newtext_i then [] else w.text++if takes w.core i then _ else [])=_
  rw [takes,state_of_four h hfour,hnew,if_neg Bool.false_ne_true]
  show w.text++(if (i.load_i && false)=true then _ else [])=_
  rw [Bool.and_false,if_neg Bool.false_ne_true,List.append_nil]

/-- The count of the operations before the last one. -/
theorem round64_next (h : Inv w bs q) (hnew : i.newtext_i=false) (hfour : q.length=4)
    (hlast : hash_generated w.core=false) :
    (w.step i).core.round64.toNat=w.core.round64.toNat+1 := by
  have hlt := w.core.round64.isLt
  have hne : w.core.round64.toNat≠63 := fun h63 =>
    beq_eq_false_iff_ne.mp hlast (BitVec.eq_of_toNat_eq h63)
  have hgenerate : w.core.generate_hash=true := h.generates.trans (decide_eq_true hfour)
  exact (count_step hgenerate hnew h.round).1.trans (Nat.mod_eq_of_lt (by omega))

/-- An operation that is not the last one. -/
theorem inv_work (h : Inv w bs q) (hnew : i.newtext_i=false) (hfour : q.length=4)
    (hlast : hash_generated w.core=false) : Inv (w.step i) bs q := by
  have hstate := state_of_four h hfour
  have hfinishes : finishes w.core=false := (finishes_eq h hfour).trans hlast
  have hgenerate : w.core.generate_hash=true := h.generates.trans (decide_eq_true hfour)
  have hround := (count_step hgenerate hnew h.round).2
  have hcount := round64_next h hnew hfour hlast
  have hchained : Md5Core.chained (Md5Core.step w.core i)=Md5Core.chained w.core := by
    rw [chained_step,hfinishes,hnew,if_neg Bool.false_ne_true,if_neg Bool.false_ne_true]
  refine ⟨(text_step h hfour hnew).trans h.text,h.whole,h.bounded,?_,?_,
    hchained.trans h.chained,?_,fun hlt => absurd hfour (Nat.ne_of_lt hlt),hround,?_,?_⟩
  · show (next_getdata_state w.core i).toNat=_
    rw [next_getdata_state,h.count,hfour,hlast,hnew,hstate]
    rfl
  · have hmessage : next_message w.core i=w.core.message := by
      rw [next_message,h.count,hfour]
      rfl
    show ∀ j, j < q.length → (next_message w.core i).extractLsb' _ _=_
    rw [hmessage]
    exact h.quarters
  · show next_generate_hash w.core i=_
    rw [next_generate_hash,h.count,hfour,hlast]
    rfl
  · intro _
    show working (Md5Core.step w.core i)=operations _ _ (Md5Core.step w.core i).round64.toNat
      (Md5Core.chained (Md5Core.step w.core i))
    rw [working_step,hstate,hnew,hgenerate,if_neg (by decide),if_neg Bool.false_ne_true,
      if_pos rfl,operation_step h hfour,hchained]
    exact congrArg (operations _ _ · _) hcount.symm
  · show (if i.newtext_i then [] else w.answers++shown w.core)++
      (if finishes w.core then _ else [])=_
    rw [hnew,hfinishes,if_neg Bool.false_ne_true,if_neg Bool.false_ne_true,List.append_nil]
    exact h.answers

/-- The last operation. -/
theorem inv_finish (h : Inv w bs q) (hnew : i.newtext_i=false) (hfour : q.length=4)
    (hlast : hash_generated w.core=true) : Inv (w.step i) (bs++[q]) [] := by
  have hstate := state_of_four h hfour
  have hfinishes : finishes w.core=true := (finishes_eq h hfour).trans hlast
  have hgenerate : w.core.generate_hash=true := h.generates.trans (decide_eq_true hfour)
  have h63 : w.core.round64=63 := eq_of_beq hlast
  rcases count_step hgenerate hnew h.round with ⟨hround64,hround⟩
  have hround0 : (Md5Core.step w.core i).round64=0 := by
    apply BitVec.eq_of_toNat_eq
    rw [hround64,h63]
    rfl
  have hoperations : (⟨w.core.dr,func_out w.core,w.core.br,w.core.cr⟩ : Words)=
      operations sine (word q) 64 (chain (bs.map word)) := by
    rw [operation_step h hfour,h63,h.chained]
    rfl
  have hchained : Md5Core.chained (Md5Core.step w.core i)=chain ((bs++[q]).map word) := by
    rw [chained_step,hfinishes,if_pos rfl,hoperations,h.chained,List.map_append,List.map_singleton,
      chain_concat]
    rfl
  refine ⟨?_,?_,by decide,?_,fun _ hj => absurd hj (Nat.not_lt_zero _),hchained,?_,
    fun _ => hround0,hround,fun hpos => absurd hpos (Nat.lt_irrefl _),?_⟩
  · rw [text_step h hfour hnew,h.text,List.flatten_append,List.flatten_singleton,List.append_nil]
  · intro b hb
    rcases List.mem_append.mp hb with hold | hq
    · exact h.whole b hold
    · rw [List.mem_singleton.mp hq]
      exact hfour
  · show (next_getdata_state w.core i).toNat=_
    rw [next_getdata_state,h.count,hfour,hlast]
    rfl
  · show next_generate_hash w.core i=_
    rw [next_generate_hash,h.count,hfour,hlast]
    rfl
  · have hdata : next_data_o w.core=join (Md5Core.chained (Md5Core.step w.core i)) := by
      rw [next_data_o,if_pos hstate,chained_step,hfinishes,if_pos rfl]
      rfl
    show (if i.newtext_i then [] else w.answers++shown w.core)++
      (if finishes w.core then [next_data_o w.core] else [])=_
    have hall : (bs++[q]).take (bs.length+1)=bs++[q] :=
      List.take_of_length_le (by rw [List.length_append]; exact Nat.le_refl _)
    rw [hnew,hfinishes,if_neg Bool.false_ne_true,if_pos rfl,h.answers,hdata,hchained,
      List.length_append,List.length_singleton,List.range_succ]
    refine (congrArg₂ _ ?_ ?_).trans List.map_append.symm
    · apply List.map_congr_left
      intro k hk
      rw [List.take_append_of_le_length (List.mem_range.mp hk)]
    · rw [List.map_singleton,hall]

/-- One cycle. -/
theorem inv_step (h : Inv w bs q) (hi : Careful w.core i) : ∃ bs' q', Inv (w.step i) bs' q' := by
  cases hnew : i.newtext_i with
  | true =>
    rcases hi hnew with ⟨hload,hne⟩
    have hfour : q.length≠4 := mt (state_eq_iff h 4 (by decide)).mpr hne
    exact ⟨_,_,inv_newtext h hnew hload (Nat.lt_of_le_of_ne h.bounded hfour)⟩
  | false =>
    rcases Nat.lt_or_eq_of_le h.bounded with hlt | hfour
    · cases hload : i.load_i with
      | true => exact ⟨_,_,inv_load h hnew hload hlt⟩
      | false => exact ⟨_,_,inv_wait h hnew hload hlt⟩
    · cases hlast : hash_generated w.core with
      | false => exact ⟨_,_,inv_work h hnew hfour hlast⟩
      | true => exact ⟨_,_,inv_finish h hnew hfour hlast⟩

theorem inv_run {is : List Input}
    (his : Machine.Meets step (fun w i => Careful w.core i) reset is) :
    ∃ bs q, Inv (Machine.after step reset is) bs q :=
  Machine.after_invariant_of_meets (P:=fun w => ∃ bs q, Inv w bs q)
    (fun _ _ ⟨_,_,h⟩ hi => inv_step h hi) ⟨[],[],inv_reset⟩ his

theorem length_flatten {bs : List (List (BitVec 128))} (hbs : ∀ b∈bs, b.length=4) :
    bs.flatten.length=4*bs.length := by
  rw [List.length_flatten,List.map_congr_left hbs,List.map_const',List.sum_replicate,smul_eq_mul,
    Nat.mul_comm]

/-- The hash of the first blocks. -/
theorem digest_take (h : Inv w bs q) {k : ℕ} (hk : k ≤ bs.length) :
    digest (w.text.take (4*k))=join (chain ((bs.take k).map word)) := by
  have hwhole : ∀ b∈bs.take k, b.length=4 := fun b hb => h.whole b (List.mem_of_mem_take hb)
  have htake : w.text.take (4*k)=(bs.take k).flatten := by
    rw [h.text]
    conv_lhs => rw [←List.take_append_drop k bs,List.flatten_append,List.append_assoc]
    exact List.take_left' (by rw [length_flatten hwhole,List.length_take,Nat.min_eq_left hk])
  rw [digest,htake,Sponge.blocks_flatten (by decide) hwhole]

theorem done_eq (h : Inv w bs q) : w.done=bs.length := by
  have hlength : w.text.length=4*bs.length+q.length := by
    rw [h.text,List.length_append,length_flatten h.whole]
  have hbounded := h.bounded
  have hstate : w.core.getdata_state=4 ↔ q.length=4 := state_eq_iff h 4 (by decide)
  rw [done,hlength]
  split_ifs with hfour
  · rw [hstate] at hfour
    omega
  · rw [hstate] at hfour
    omega

theorem answers_eq (h : Inv w bs q) :
    w.answers++shown w.core=(List.range w.done).map fun k => digest (w.text.take (4*(k+1))) := by
  rw [h.answers,done_eq h]
  apply List.map_congr_left
  intro k hk
  rw [digest_take h (List.mem_range.mp hk)]

/-- What the core shows after a block is the hash of the text. -/
theorem data_eq (h : Inv w (bs++[q]) []) (hready : w.core.ready_o=true) :
    w.core.data_o=digest w.text := by
  have hanswers := h.answers
  rw [shown,hready,if_pos rfl,List.length_append,List.length_singleton,List.range_succ,
    List.map_append,List.map_singleton] at hanswers
  have hlast := List.append_inj_right' hanswers rfl
  have htext : w.text.take (4*(bs.length+1))=w.text := by
    apply List.take_of_length_le
    rw [h.text,List.append_nil,length_flatten h.whole,List.length_append,List.length_singleton]
  rw [List.singleton_inj.mp hlast,←digest_take h (by rw [List.length_append]; exact Nat.le_refl _),
    htext]

/-- The cycles of work on a block. -/
theorem work_run {is : List Input} (h : Inv w bs q) (hfour : q.length=4)
    (hready : w.core.ready_o=false)
    (his : Machine.Meets step (fun w i => Careful w.core i) w is)
    (hlong : w.core.round64.toNat+is.length ≤ 64) :
    (Machine.after step w is).text=w.text ∧
      (Machine.after step w is).core.ready_o=decide (w.core.round64.toNat+is.length=64) ∧
      (w.core.round64.toNat+is.length=64 → Inv (Machine.after step w is) (bs++[q]) []) := by
  induction is generalizing w with
  | nil =>
    have hne : w.core.round64.toNat+0≠64 := Nat.ne_of_lt w.core.round64.isLt
    exact ⟨rfl,hready.trans (decide_eq_false hne).symm,fun h64 => absurd h64 hne⟩
  | cons i is ih =>
    have hnew : i.newtext_i=false := by
      cases hnew : i.newtext_i with
      | false => rfl
      | true => exact absurd (state_of_four h hfour) (his.1 hnew).2
    have htext := text_step h hfour hnew
    rw [List.length_cons] at hlong
    cases hlast : hash_generated w.core with
    | true =>
      have h63 : w.core.round64.toNat=63 := congrArg BitVec.toNat (eq_of_beq hlast)
      have hnil : is=[] := List.length_eq_zero_iff.mp (by omega)
      subst hnil
      refine ⟨htext,?_,fun _ => inv_finish h hnew hfour hlast⟩
      show finishes w.core=_
      rw [finishes_eq h hfour,hlast,h63]
      rfl
    | false =>
      have hnext := round64_next h hnew hfour hlast
      have hrest := ih (inv_work h hnew hfour hlast) ((finishes_eq h hfour).trans hlast) his.2
        (by rw [hnext]; omega)
      rw [hnext,Nat.add_assoc,Nat.add_comm 1,htext] at hrest
      exact hrest

end Session

end Sessions

section Runs

open Session

/-- Whatever the pace at which the user loads a text, the core shows, once for each block, the
hash of the text up to the block. -/
theorem shows_hashes (is : List Input)
    (his : Machine.Meets Session.step (fun w i => Careful w.core i) Session.reset is) :
    (Machine.after Session.step Session.reset is).answers++
        shown (Machine.after Session.step Session.reset is).core=
      (List.range (Machine.after Session.step Session.reset is).done).map fun k =>
        digest ((Machine.after Session.step Session.reset is).text.take (4*(k+1))) := by
  rcases inv_run his with ⟨bs,q,hinv⟩
  exact answers_eq hinv

/-- A quarter is loaded. -/
def load (data_i : BitVec 128) : Input := ⟨true,false,data_i⟩

/-- The user waits. -/
def pause : Input := ⟨false,false,0⟩

/-- The empty text, padded. -/
def empty : List (BitVec 128) := [0x80#128<<<96,0,0,0]

theorem shows_hashes_empty : digest empty=0xD98C1DD404B2008F980980E97E42F8EC := by
  have hrun := shows_hashes (empty.map load++List.replicate 64 pause) (by decide +kernel)
  have hend : ∀ w, w=Machine.after Session.step Session.reset
      (empty.map load++List.replicate 64 pause) →
      w.answers++shown w.core=[0xD98C1DD404B2008F980980E97E42F8EC] ∧ w.done=1 ∧ w.text=empty := by
    rintro _ rfl
    decide +kernel
  rcases hend _ rfl with ⟨hshown,hdone,htext⟩
  rw [hshown,hdone,htext] at hrun
  exact (List.singleton_inj.mp hrun).symm

/-- The hash is shown in the sixty-fourth cycle after the last quarter of a block, and not before
it. -/
theorem shows_in_time (before later : List Input) (last : Input)
    (his : Machine.Meets Session.step (fun w i => Careful w.core i) Session.reset
      (before++[last]++later))
    (hthree : (Machine.after Session.step Session.reset before).core.getdata_state=3)
    (hload : last.load_i=true) (hlong : later.length ≤ 64) :
    (Machine.after Session.step Session.reset (before++[last]++later)).core.ready_o=
        decide (later.length=64) ∧
      (later.length=64 →
        (Machine.after Session.step Session.reset (before++[last]++later)).core.data_o=
          digest (Machine.after Session.step Session.reset (before++[last])).text) := by
  rw [Machine.meets_append] at his
  have hbefore := (Machine.meets_append _ _ _ _ _).mp his.1
  rcases inv_run hbefore.1 with ⟨bs,q,hinv⟩
  have hq : q.length=3 := (state_eq_iff hinv 3 (by decide)).mp hthree
  have hnew : last.newtext_i=false := by
    cases hnew : last.newtext_i with
    | false => rfl
    | true => exact absurd hload (Bool.eq_false_iff.mp (hbefore.2.1 hnew).1)
  have hlast := inv_load hinv hnew hload (by omega)
  have hfour : (q++[last.data_i]).length=4 := by rw [List.length_append,hq]; rfl
  have hround64 := (idle_step (i:=last) (generates_false hinv (by omega))
    (hinv.waits (by omega))).1
  have hready := finishes_false hinv (by omega : q.length < 4)
  rw [←Machine.after_concat Session.step] at hlast
  have hstart :
      (Machine.after Session.step Session.reset (before++[last])).core.round64.toNat=0 := by
    rw [Machine.after_concat]
    show (Md5Core.step _ last).round64.toNat=0
    rw [hround64]
    rfl
  have hquiet : (Machine.after Session.step Session.reset (before++[last])).core.ready_o=false := by
    rw [Machine.after_concat]
    exact hready
  rcases work_run hlast hfour hquiet his.2 (by rw [hstart]; omega) with ⟨htext,hshows,hends⟩
  rw [hstart,Nat.zero_add] at hshows hends
  rw [Machine.after_append]
  refine ⟨hshows,fun h64 => ?_⟩
  rw [←htext]
  exact data_eq (hends h64) (hshows.trans (decide_eq_true h64))

theorem shows_in_time_empty :
    (Machine.after Session.step Session.reset
      ((empty.take 3).map load++[load 0]++List.replicate 64 pause)).core.ready_o=true :=
  (shows_in_time ((empty.take 3).map load) (List.replicate 64 pause) (load 0) (by decide +kernel)
    rfl rfl (by decide)).1

end Runs

end Pulpissimo.Hwpe.Md5Core
