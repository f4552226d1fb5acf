import Mathlib.Data.BitVec
import Pulpissimo.AdvDbg.LintBurst

/-!
# Read bursts of the debug unit

The first word is asked for at the command, and every other one while the word
two places before it is sent.
-/

namespace Pulpissimo.AdvDbg.LintRead

open Pulpissimo.Machine Pulpissimo.SerialBits Pulpissimo.AdvDbg.LintModule
  Pulpissimo.AdvDbg.LintBurst
open Pulpissimo.AdvDbg.LintBiu (Width)

variable {w : Width}

section Read

/-- The module sends bit `k` of a word in a read burst. -/
structure Sends (operation : BitVec 4) (address : BitVec 32) (left : ℕ) (word : BitVec 64) (k : ℕ)
    (crc : BitVec 32) (s : State) : Prop where
  state : s.module_state=.STATE_Rburst
  operation : s.operation=operation
  address : s.address_counter=address
  words : s.word_count=BitVec.ofNat 16 left
  count : s.bit_count=BitVec.ofNat 6 k
  shift : s.data_out_shift_reg=word.setWidth 65 >>> k
  crc : s.crc=crc

variable {operation : BitVec 4} {address : BitVec 32} {left : ℕ} {word : BitVec 64} {k : ℕ}
  {crc : BitVec 32} {s : System w} {c : Cycle w}

/-- The bit that is sent. -/
theorem Sends.bit (h : Sends operation address left word k crc s.regs) :
    s.regs.data_out_shift_reg.getLsbD 0=word.getLsbD k := by
  rw [h.shift,BitVec.getLsbD_ushiftRight,BitVec.getLsbD_setWidth,Nat.add_zero]
  rcases Nat.lt_or_ge k 65 with hk | hk
  · rw [decide_eq_true hk,Bool.true_and]
  · rw [decide_eq_false (Nat.not_lt.mpr hk),Bool.false_and,BitVec.getLsbD_of_ge _ _ (by omega)]

/-- Outputs of the control machine while it sends. -/
theorem out_Rburst (h : s.regs.module_state=.STATE_Rburst) {last more : Bool}
    (hlast : bit_count_max s.regs=last) (hmore : read_more s.regs=more) :
    s.out c={ out_reg_shift_en := true
              bit_ct_en := true
              crc_en := true
              top_inhibit_o := true
              error_reg_en := last
              out_reg_data_sel := !last
              out_reg_ld_en := last
              bit_ct_rst := last
              word_ct_en := last
              biu_strobe := last && more
              addr_ct_en := last && more } := by
  subst hlast hmore
  unfold System.out LintModule.control
  rw [h]

/-- A bit that is not the last one of its word. -/
theorem Sends.next (h : Sends operation address left word k crc s.regs)
    (hk : k+1<wordBits operation) (hu : c.update_dr_i=false) :
    Sends operation address left word (k+1) (crcStep 0xEDB88320#32 crc (word.getLsbD k))
      (s.step c).regs ∧
    s.tdo c=word.getLsbD k ∧ s.accesses c=[] ∧ (s.step c).answer=s.answer := by
  have hmax : bit_count_max s.regs=false := by
    rw [bit_count_max_eq h.count (by rw [h.operation]; omega),h.operation]
    exact decide_eq_false (Nat.ne_of_lt hk)
  have hout := out_Rburst (c := c) h.state hmax rfl
  rcases accesses_none (by rw [hout]; rfl) with ⟨hnone,hanswer⟩
  refine ⟨?_,(tdo_of_out s c hout).trans h.bit,hnone,hanswer⟩
  rw [step_regs s c hout]
  refine ⟨?_,h.operation,h.address,h.words,?_,?_,?_⟩
  · unfold module_next_state
    rw [h.state,hmax]
    exact if_neg (by rw [show (s.input c).update_dr_i=false from hu]; decide)
  · exact (congrArg (· +1#6) h.count).trans (BitVec.ofNat_add ..).symm
  · change s.regs.data_out_shift_reg >>> 1=_
    rw [h.shift,BitVec.shiftRight_add]
  · exact (new_crc_eq _ _).trans (by rw [h.crc]; exact congrArg _ h.bit)

/-- The last bit of a word while words are left: the next word is taken, and the one after it
is asked for if there is one. -/
theorem Sends.load (h : Sends operation address (left+1) word k crc s.regs)
    (hleft : left+1<2^16) (hk : k+1=wordBits operation) (hrd : rd_op operation=true)
    (hu : c.update_dr_i=false) (ht : InTime s c) :
    Sends operation
      (if left=0 then address else address+(word_size_bytes operation).setWidth 32) left s.answer 0
      (crcStep 0xEDB88320#32 crc (word.getLsbD k)) (s.step c).regs ∧
    s.tdo c=word.getLsbD k ∧ s.accesses c=(if left=0 then [] else [s.access c]) ∧
    (left≠0 → (s.step c).answer=(s.access c).answer) := by
  have hmax : bit_count_max s.regs=true := by
    rw [bit_count_max_eq h.count (by rw [h.operation]; omega),h.operation]
    exact decide_eq_true hk
  have hout := out_Rburst (c := c) h.state hmax (read_more_eq h.words hleft)
  have hready : c.biu_ready=true := ht (by rw [hout]; exact Bool.or_true _)
  have hzero : word_count_zero s.regs=false := by
    rw [word_count_zero_eq h.words hleft]
    exact decide_eq_false (Nat.succ_ne_zero left)
  have hregs : Sends operation
      (if left=0 then address else address+(word_size_bytes operation).setWidth 32) left s.answer 0
      (crcStep 0xEDB88320#32 crc (word.getLsbD k)) (s.step c).regs := by
    rw [step_regs s c hout]
    refine ⟨?_,h.operation,?_,decremented_eq h.words,rfl,?_,?_⟩
    · unfold module_next_state
      rw [h.state,hmax,hzero]
      exact if_neg (by rw [show (s.input c).update_dr_i=false from hu]; decide)
    · exact address_more left h.operation h.address
    · change (if c.biu_ready then s.answer else c.stale).setWidth 65=_
      rw [hready]
      rfl
    · exact (new_crc_eq _ _).trans (by rw [h.crc]; exact congrArg _ h.bit)
  exact ⟨hregs,(tdo_of_out s c hout).trans h.bit,
    accesses_more (by rw [hout]; rfl) ht (h.operation ▸ hrd)⟩

/-- The last bit of the last word. -/
theorem Sends.done (h : Sends operation address 0 word k crc s.regs)
    (hk : k+1=wordBits operation) (hu : c.update_dr_i=false) :
    (s.step c).regs.module_state=.STATE_Rcrc ∧
    (s.step c).regs.crc=crcStep 0xEDB88320#32 crc (word.getLsbD k) ∧
    s.tdo c=word.getLsbD k ∧ s.accesses c=[] := by
  have hmax : bit_count_max s.regs=true := by
    rw [bit_count_max_eq h.count (by rw [h.operation]; omega),h.operation]
    exact decide_eq_true hk
  have hout := out_Rburst (c := c) h.state hmax (read_more_zero h.words)
  have hzero : word_count_zero s.regs=true := by
    rw [word_count_zero_eq h.words (by decide)]
    rfl
  rw [step_regs s c hout]
  refine ⟨?_,?_,(tdo_of_out s c hout).trans h.bit,(accesses_none (by rw [hout]; rfl)).1⟩
  · unfold module_next_state
    rw [h.state,hmax,hzero]
    exact if_neg (by rw [show (s.input c).update_dr_i=false from hu]; decide)
  · exact (new_crc_eq _ _).trans (by rw [h.crc]; exact congrArg _ h.bit)

/-- Bits of a word as they go over the line. -/
def wordLine (operation : BitVec 4) (word : BitVec 64) : List Bool :=
  (List.range (wordBits operation)).map word.getLsbD

/-- Bits before the last one of a word. -/
theorem Sends.bits {cs : List (Cycle w)} (h : Sends operation address left word k crc s.regs)
    (hk : k+cs.length<wordBits operation) (hu : ∀ c ∈ cs,c.update_dr_i=false) :
    Sends operation address left word (k+cs.length) (crcLine crc (output s cs))
      (after System.step s cs).regs ∧
    output s cs=(List.range' k cs.length).map word.getLsbD ∧ log s cs=[] ∧
    (after System.step s cs).answer=s.answer := by
  induction cs generalizing s k crc with
  | nil => exact ⟨h,rfl,rfl,rfl⟩
  | cons c cs ih =>
    rw [List.length_cons] at hk
    rcases h.next (by omega) (hu c List.mem_cons_self) with ⟨hnext,htdo,hnone,hanswer⟩
    rcases ih hnext (by omega) (fun d hd => hu d (List.mem_cons_of_mem c hd)) with
      ⟨hend,hout,hlog,hkeep⟩
    refine ⟨?_,?_,?_,hkeep.trans hanswer⟩
    · rw [output_cons,List.length_cons,Nat.add_comm cs.length,←Nat.add_assoc,htdo]
      exact hend
    · rw [output_cons,htdo,hout,List.length_cons,List.range'_succ,List.map_cons]
    · rw [log_cons,hnone,hlog,List.append_nil]

/-- All bits of a word but the last one, and that. -/
theorem Sends.split {cs : List (Cycle w)} (h : Sends operation address left word 0 crc s.regs)
    (hlen : cs.length=wordBits operation) (hu : ∀ c ∈ cs,c.update_dr_i=false)
    (ht : Meets System.step InTime s cs) : ∃ t c,
      Sends operation address left word (wordBits operation-1)
        (crcLine crc ((List.range (wordBits operation-1)).map word.getLsbD)) t.regs ∧
      c.update_dr_i=false ∧ InTime t c ∧ after System.step s cs=t.step c ∧
      output s cs=(List.range (wordBits operation-1)).map word.getLsbD++[t.tdo c] ∧
      log s cs=t.accesses c ∧ t.answer=s.answer := by
  have hpos : 0<wordBits operation := Nat.succ_pos _
  rcases List.eq_nil_or_concat cs with rfl | ⟨init,c,rfl⟩
  · rw [List.length_nil] at hlen
    omega
  · rw [List.concat_eq_append] at hlen hu ht ⊢
    rw [List.length_append,List.length_singleton] at hlen
    have hinit : init.length=wordBits operation-1 := by omega
    rcases h.bits (by omega) (fun d hd => hu d (List.mem_append_left _ hd)) with
      ⟨hend,hout,hlog,hanswer⟩
    rw [hinit,←List.range_eq_range'] at hout
    rw [Nat.zero_add,hinit,hout] at hend
    refine ⟨after System.step s init,c,hend,hu c (by simp),
      ((meets_append _ _ _ _ _).mp ht).2.1,after_concat _ _ _ _,?_,?_,hanswer⟩
    · rw [output_append,hout]
      rfl
    · rw [log_append,hlog]
      exact List.append_nil _

/-- The bits of a word are those before the last one and that. -/
theorem wordLine_split (operation : BitVec 4) (word : BitVec 64) :
    wordLine operation word=(List.range (wordBits operation-1)).map word.getLsbD++
      [word.getLsbD (wordBits operation-1)] := by
  have hpred : wordBits operation=wordBits operation-1+1 := rfl
  unfold wordLine
  rw [hpred,List.range_succ,List.map_append]
  rfl

/-- What a part of a read burst leaves: its output, its accesses and the checksum. -/
structure Sent (operation : BitVec 4) (crc : BitVec 32) (line : List Bool) (addrs : List (BitVec 32))
    (s : System w) (cs : List (Cycle w)) : Prop where
  state : (after System.step s cs).regs.module_state=.STATE_Rcrc
  output : output s cs=line++(log s cs).flatMap fun a => wordLine operation a.answer
  crc : (after System.step s cs).regs.crc=crcLine crc (LintBurst.output s cs)
  addresses : (log s cs).map Access.address=addrs
  coded : ∀ a ∈ log s cs,Coded operation a

/-- The last word is sent without any access. -/
theorem Sends.last {cs : List (Cycle w)} (h : Sends operation address 0 word 0 crc s.regs)
    (hlen : cs.length=wordBits operation) (hu : ∀ c ∈ cs,c.update_dr_i=false)
    (ht : Meets System.step InTime s cs) :
    Sent operation crc (wordLine operation word) [] s cs := by
  rcases h.split hlen hu ht with ⟨t,c,hlast,huc,-,hafter,hout,hlog,-⟩
  rcases hlast.done rfl huc with ⟨hstate,hcrc,htdo,hnone⟩
  rw [hnone] at hlog
  have hline : output s cs=wordLine operation word := by
    rw [hout,htdo,wordLine_split]
  refine ⟨?_,?_,?_,?_,?_⟩
  · rw [hafter,hstate]
  · rw [hline,hlog,List.flatMap_nil,List.append_nil]
  · rw [hafter,hcrc,hline,wordLine_split,crcLine_append]
    rfl
  · rw [hlog]
    rfl
  · rw [hlog]
    exact nofun

/-- All words of a read burst from the first one on. The word after it has been asked for. -/
theorem Sends.burst {cs : List (Cycle w)} (h : Sends operation address left word 0 crc s.regs)
    (hleft : left<2^16) (hrd : rd_op operation=true)
    (hlen : cs.length=(left+1)*wordBits operation) (hu : ∀ c ∈ cs,c.update_dr_i=false)
    (ht : Meets System.step InTime s cs) :
    Sent operation crc
      (wordLine operation word++if left=0 then [] else wordLine operation s.answer)
      (addresses operation address (left-1)) s cs := by
  induction left generalizing s address word crc cs with
  | zero =>
    rw [Nat.zero_add,Nat.one_mul] at hlen
    rw [if_pos rfl,List.append_nil]
    exact h.last hlen hu ht
  | succ left ih =>
    have hwb : (left+1+1)*wordBits operation=wordBits operation+(left+1)*wordBits operation := by
      rw [Nat.succ_mul,Nat.add_comm]
    have hcut : wordBits operation ≤ cs.length := by omega
    rw [←List.take_append_drop (wordBits operation) cs] at hu ht ⊢
    have hfirst : (cs.take (wordBits operation)).length=wordBits operation := by
      rw [List.length_take]
      omega
    have hrest : (cs.drop (wordBits operation)).length=(left+1)*wordBits operation := by
      rw [List.length_drop]
      omega
    generalize cs.take (wordBits operation)=before at *
    generalize cs.drop (wordBits operation)=later at *
    rcases (meets_append _ _ _ _ _).mp ht with ⟨htb,htl⟩
    rcases h.split hfirst (fun c hc => hu c (List.mem_append_left _ hc)) htb with
      ⟨t,c,hlast,huc,htc,hafter,hout,hlog,hanswer⟩
    rcases hlast.load hleft rfl hrd huc htc with ⟨hnext,htdo,haccess,hnew⟩
    rw [hafter] at htl
    have hburst := ih hnext (by omega) hrest (fun c hc => hu c (List.mem_append_right _ hc)) htl
    have hline : output s before=wordLine operation word := by
      rw [hout,htdo,wordLine_split]
    have hcrc : crcStep 0xEDB88320#32
        (crcLine crc ((List.range (wordBits operation-1)).map word.getLsbD))
        (word.getLsbD (wordBits operation-1))=crcLine crc (output s before) := by
      rw [hline,wordLine_split,crcLine_append]
      rfl
    rw [hcrc,hanswer] at hburst
    rw [haccess] at hlog
    rw [if_neg (Nat.succ_ne_zero left)]
    refine ⟨?_,?_,?_,?_,?_⟩
    · rw [after_append,hafter]
      exact hburst.state
    · rw [output_append,log_append,List.flatMap_append,hline,hlog,hafter,hburst.output]
      by_cases hl : left=0
      · rw [if_pos hl,if_pos hl]
        simp only [List.append_nil,List.flatMap_nil,List.nil_append,List.append_assoc]
      · rw [if_neg hl,if_neg hl,hnew hl]
        simp only [List.flatMap_cons,List.flatMap_nil,List.append_nil,List.append_assoc]
    · rw [after_append,hafter,hburst.crc,output_append,crcLine_append,hafter]
    · rw [log_append,hlog,List.map_append,hafter,hburst.addresses,Nat.add_sub_cancel]
      by_cases hl : left=0
      · rw [if_pos hl,if_pos hl,hl]
        rfl
      · have hsucc : left=left-1+1 := by omega
        have haddr : (t.access c).address=address := hlast.address
        rw [if_neg hl,if_neg hl,hsucc,addresses_succ,Nat.add_sub_cancel,List.map_singleton,haddr]
        rfl
    · rw [log_append,hlog,hafter]
      intro a ha
      rcases List.mem_append.mp ha with ha | ha
      · by_cases hl : left=0
        · rw [if_pos hl] at ha
          exact absurd ha List.not_mem_nil
        · rw [if_neg hl,List.mem_singleton] at ha
          exact ha ▸ coded_access c hlast.operation
      · exact hburst.coded a ha

/-- After a read burst the checksum is sent. -/
theorem checksum_sent {cs : List (Cycle w)} (hstate : s.regs.module_state=.STATE_Rcrc)
    (hu : ∀ c ∈ cs,c.update_dr_i=false) :
    output s cs=(List.range cs.length).map s.regs.crc.getLsbD ∧ log s cs=[] := by
  induction cs generalizing s with
  | nil => exact ⟨rfl,rfl⟩
  | cons c cs ih =>
    have hout : s.out c={ tdo_output_sel := 3#2, crc_shift_en := true, top_inhibit_o := true } := by
      unfold System.out LintModule.control
      rw [hstate]
    have hnext : (s.step c).regs.module_state=.STATE_Rcrc := by
      rw [step_regs s c hout]
      unfold module_next_state
      rw [hstate]
      exact if_neg (by rw [show (s.input c).update_dr_i=false from hu c List.mem_cons_self]; decide)
    have hcrc : (s.step c).regs.crc=s.regs.crc >>> 1 := by
      rw [step_regs s c hout]
      rfl
    rcases ih hnext (fun d hd => hu d (List.mem_cons_of_mem c hd)) with ⟨hrest,hlog⟩
    refine ⟨?_,?_⟩
    · have htdo : s.tdo c=s.regs.crc.getLsbD 0 := tdo_of_out s c hout
      rw [output_cons,htdo,hrest,hcrc,List.length_cons,List.range_succ_eq_map,List.map_cons,
        List.map_map]
      refine congrArg (List.cons _) (List.map_congr_left fun j _ => ?_)
      rw [BitVec.getLsbD_ushiftRight,Nat.add_comm]
      rfl
    · rw [log_cons,hlog,(accesses_none (by rw [hout])).1]
      rfl

end Read

section Start

variable {operation : BitVec 4} {address : BitVec 32} {n : ℕ} {s : System w} {c : Cycle w}

/-- Nothing happens between the scans. -/
theorem pause_step (h : Begun .STATE_Rready operation address n s.regs) (hc : Pauses c) :
    Begun .STATE_Rready operation address n (s.step c).regs ∧ s.accesses c=[] ∧
      (s.step c).answer=s.answer := by
  have hout : s.out c={ } := by
    unfold System.out LintModule.control
    rw [h.state]
  refine ⟨?_,accesses_none (by rw [hout])⟩
  rw [step_regs s c hout]
  refine ⟨?_,h.operation,h.address,h.words,h.count,h.crc⟩
  unfold module_next_state
  rw [h.state]
  exact if_neg (by rw [show (s.input c).capture_dr_i=false from hc.1,Bool.and_false]; decide)

/-- A read burst begins with the access for the first word. -/
theorem first_step (h : Begun .STATE_Rbegin operation address n s.regs) (hn : 0<n)
    (hlt : n<2^16) (hrd : rd_op operation=true) (ht : InTime s c) :
    Begun .STATE_Rready operation (address+(word_size_bytes operation).setWidth 32) n
      (s.step c).regs ∧
    s.accesses c=[s.access c] ∧ (s.step c).answer=(s.access c).answer := by
  have hzero : word_count_zero s.regs=false := by
    rw [word_count_zero_eq h.words hlt]
    exact decide_eq_false (Nat.ne_of_gt hn)
  have hout : s.out c={ biu_strobe := true, addr_ct_en := true } := by
    unfold System.out LintModule.control
    rw [h.state]
    dsimp only
    rw [hzero]
    rfl
  rcases accesses_some (by rw [hout]) ht with ⟨haccess,hanswer⟩
  refine ⟨?_,haccess,hanswer (h.operation ▸ hrd)⟩
  rw [step_regs s c hout]
  refine ⟨?_,h.operation,?_,h.words,h.count,h.crc⟩
  · unfold module_next_state
    rw [h.state,hzero]
    rfl
  · change incremented_address s.regs=_
    unfold incremented_address
    rw [h.operation,h.address]

/-- The scan begins. -/
theorem capture_step (h : Begun .STATE_Rready operation address n s.regs) (hc : Captures c) :
    Begun .STATE_Rstatus operation address n (s.step c).regs ∧ s.accesses c=[] ∧
      (s.step c).answer=s.answer := by
  have hout : s.out c={ } := by
    unfold System.out LintModule.control
    rw [h.state]
  refine ⟨?_,accesses_none (by rw [hout])⟩
  rw [step_regs s c hout]
  refine ⟨?_,h.operation,h.address,h.words,h.count,h.crc⟩
  unfold module_next_state
  rw [h.state]
  refine if_pos ?_
  rw [show (s.input c).module_select_i=true from hc.2.2.2,
    show (s.input c).capture_dr_i=true from hc.1]
  rfl

/-- Outputs of the control machine while it waits for the first word. -/
theorem out_Rstatus (h : s.regs.module_state=.STATE_Rstatus) (hu : c.update_dr_i=false)
    {more : Bool} (hmore : read_more s.regs=more) :
    s.out c={ tdo_output_sel := 0#2
              top_inhibit_o := true
              error_reg_en := c.biu_ready
              out_reg_data_sel := !c.biu_ready
              out_reg_ld_en := c.biu_ready
              bit_ct_rst := c.biu_ready
              word_ct_en := c.biu_ready
              biu_strobe := c.biu_ready && more
              addr_ct_en := c.biu_ready && more } ∧
    module_next_state s.regs (s.input c)=
      if c.biu_ready then .STATE_Rburst else .STATE_Rstatus := by
  subst hmore
  have hnext : module_next_state s.regs (s.input c)=
      if c.biu_ready then .STATE_Rburst else .STATE_Rstatus := by
    unfold module_next_state
    rw [h]
    exact if_neg (by rw [show (s.input c).update_dr_i=false from hu]; decide)
  have hburst : (module_next_state s.regs (s.input c)==.STATE_Rburst)=c.biu_ready := by
    rw [hnext]
    cases c.biu_ready <;> rfl
  refine ⟨?_,hnext⟩
  unfold System.out LintModule.control
  rw [h]
  dsimp only
  rw [hburst]

/-- While the first word is not there the serial output is low. -/
theorem wait_step (h : Begun .STATE_Rstatus operation address n s.regs)
    (hu : c.update_dr_i=false) (hready : c.biu_ready=false) :
    Begun .STATE_Rstatus operation address n (s.step c).regs ∧ s.tdo c=false ∧ s.accesses c=[] ∧
      (s.step c).answer=s.answer := by
  rcases out_Rstatus (c := c) h.state hu rfl with ⟨hout,hnext⟩
  rw [hready] at hout hnext
  refine ⟨?_,(tdo_of_out s c hout).trans hready,accesses_none (by rw [hout]; rfl)⟩
  rw [step_regs s c hout]
  exact ⟨hnext,h.operation,h.address,h.words,h.count,h.crc⟩

/-- When it is there the serial output is high, and the burst goes on. -/
theorem ready_step (h : Begun .STATE_Rstatus operation address (n+1) s.regs) (hlt : n+1<2^16)
    (hrd : rd_op operation=true) (hu : c.update_dr_i=false) (hready : c.biu_ready=true) :
    Sends operation
      (if n=0 then address else address+(word_size_bytes operation).setWidth 32) n s.answer 0
      (BitVec.allOnes 32) (s.step c).regs ∧
    s.tdo c=true ∧ s.accesses c=(if n=0 then [] else [s.access c]) ∧
    (n≠0 → (s.step c).answer=(s.access c).answer) := by
  rcases out_Rstatus (c := c) h.state hu (read_more_eq h.words hlt) with ⟨hout,hnext⟩
  rw [hready] at hout hnext
  have hregs : Sends operation
      (if n=0 then address else address+(word_size_bytes operation).setWidth 32) n s.answer 0
      (BitVec.allOnes 32) (s.step c).regs := by
    rw [step_regs s c hout]
    refine ⟨hnext,h.operation,?_,decremented_eq h.words,rfl,?_,h.crc⟩
    · exact address_more n h.operation h.address
    · change (if c.biu_ready then s.answer else c.stale).setWidth 65=_
      rw [hready]
      rfl
  exact ⟨hregs,(tdo_of_out s c hout).trans hready,
    accesses_more (by rw [hout]; rfl) (fun _ => hready) (h.operation ▸ hrd)⟩

/-- Nothing happens however long the pause between the scans is. -/
theorem pause_run {cs : List (Cycle w)} (h : Begun .STATE_Rready operation address n s.regs)
    (hc : ∀ c ∈ cs,Pauses c) :
    Begun .STATE_Rready operation address n (after System.step s cs).regs ∧ log s cs=[] ∧
      (after System.step s cs).answer=s.answer := by
  induction cs generalizing s with
  | nil => exact ⟨h,rfl,rfl⟩
  | cons c cs ih =>
    rcases pause_step h (hc c List.mem_cons_self) with ⟨hnext,hnone,hanswer⟩
    rcases ih hnext (fun d hd => hc d (List.mem_cons_of_mem c hd)) with ⟨hend,hlog,hkeep⟩
    exact ⟨hend,by rw [log_cons,hnone,hlog]; rfl,hkeep.trans hanswer⟩

/-- The serial output is low until the first word is there. -/
theorem wait_run {cs : List (Cycle w)} (h : Begun .STATE_Rstatus operation address n s.regs)
    (hu : ∀ c ∈ cs,c.update_dr_i=false) (hc : ∀ c ∈ cs,c.biu_ready=false) :
    Begun .STATE_Rstatus operation address n (after System.step s cs).regs ∧
      output s cs=List.replicate cs.length false ∧ log s cs=[] ∧
      (after System.step s cs).answer=s.answer := by
  induction cs generalizing s with
  | nil => exact ⟨h,rfl,rfl,rfl⟩
  | cons c cs ih =>
    rcases wait_step h (hu c List.mem_cons_self) (hc c List.mem_cons_self) with
      ⟨hnext,htdo,hnone,hanswer⟩
    rcases ih hnext (fun d hd => hu d (List.mem_cons_of_mem c hd))
      (fun d hd => hc d (List.mem_cons_of_mem c hd)) with ⟨hend,hout,hlog,hkeep⟩
    exact ⟨hend,by rw [output_cons,htdo,hout]; rfl,by rw [log_cons,hnone,hlog]; rfl,
      hkeep.trans hanswer⟩

end Start

/-- The cycles of a read burst. -/
structure Run (w : Width) where
  /-- Takes the command. -/
  update : Cycle w
  /-- Begins it. -/
  first : Cycle w
  /-- The rest of the pause between the scans. -/
  gap : List (Cycle w)
  /-- Begins the scan of the data. -/
  capture : Cycle w
  /-- The first word is not there yet. -/
  waits : List (Cycle w)
  /-- It is there. -/
  ready : Cycle w
  /-- One cycle for every bit. -/
  data : List (Cycle w)
  /-- One cycle for every bit of the checksum. -/
  checksum : List (Cycle w)

/-- Cycles up to the scan of the data. -/
def Run.head (r : Run w) : List (Cycle w) := r.update::r.first::(r.gap++[r.capture])

/-- The scan of the data. -/
def Run.body (r : Run w) : List (Cycle w) := r.waits++r.ready::(r.data++r.checksum)

/-- All cycles. -/
def Run.cycles (r : Run w) : List (Cycle w) := r.head++r.body

/-- The command is a burst read, its scans are those of the TAP and are run to completion, and
the bus answers in time. -/
structure Run.Complete (r : Run w) (s : System w) : Prop where
  command : Commands s.regs
  read : burst_read (operation_in s.regs)=true
  update : Updates r.update
  first : Pauses r.first
  gap : ∀ c ∈ r.gap,Pauses c
  capture : Captures r.capture
  shifts : ∀ c ∈ r.body,Shifts c
  waits : ∀ c ∈ r.waits,c.biu_ready=false
  ready : r.ready.biu_ready=true
  data : r.data.length=(count_data_in s.regs).toNat*(8*wordBytes (operation_in s.regs))
  checksum : r.checksum.length=32
  inTime : Meets System.step InTime s r.cycles

section Complete

variable {r : Run w} {s : System w}

/-- Until the scan of the data the module has asked for the first word. -/
theorem Run.Complete.start (h : r.Complete s) :
    Begun .STATE_Rstatus (operation_in s.regs)
      (address_data_in s.regs+(word_size_bytes (operation_in s.regs)).setWidth 32)
      (count_data_in s.regs).toNat (after System.step s r.head).regs ∧
    ∃ a,log s r.head=[a] ∧ a.address=address_data_in s.regs ∧ Coded (operation_in s.regs) a ∧
      (after System.step s r.head).answer=a.answer := by
  have hstate : module_next_state s.regs (s.input r.update)=.STATE_Rbegin := by
    unfold module_next_state
    rw [h.command.idle]
    refine if_pos ?_
    have hours : module_cmd s.regs=true := by
      unfold module_cmd
      rw [h.command.ours]
      rfl
    rw [hours,show (s.input r.update).module_select_i=true from h.update.2.1,
      show (s.input r.update).update_dr_i=true from h.update.1,h.read]
    rfl
  have hpos : 0<(count_data_in s.regs).toNat := by
    refine Nat.pos_of_ne_zero fun hzero => h.command.words ?_
    exact BitVec.eq_of_toNat_eq hzero
  rcases h.command.update hstate (by decide) with ⟨hbegun,hnone,-⟩
  have htime : InTime (s.step r.update) r.first := h.inTime.2.1
  rcases first_step hbegun hpos (count_data_in s.regs).isLt h.read htime with ⟨hfirst,hone,hanswer⟩
  rcases pause_run hfirst h.gap with ⟨hgap,hquiet,hkeep⟩
  rcases capture_step hgap h.capture with ⟨hstatus,hquiet',hkeep'⟩
  have hafter : after System.step s r.head=
      (after System.step ((s.step r.update).step r.first) r.gap).step r.capture := by
    unfold Run.head
    rw [after_cons,after_cons,after_concat]
  have hlog : log s r.head=[(s.step r.update).access r.first] := by
    unfold Run.head
    rw [log_cons,log_cons,log_append,hnone,hone,hquiet,log_cons,hquiet']
    rfl
  rw [hafter]
  refine ⟨hstatus,_,hlog,hbegun.address,coded_access r.first hbegun.operation,?_⟩
  rw [hkeep',hkeep,hanswer]

/-- The whole burst: the accesses, and their words and the checksum behind the ready bit. -/
theorem Run.Complete.run (h : r.Complete s) :
    (log s r.cycles).map Access.address=
      addresses (operation_in s.regs) (address_data_in s.regs) (count_data_in s.regs).toNat ∧
    (∀ a ∈ log s r.cycles,Coded (operation_in s.regs) a) ∧
    output (after System.step s r.head) r.body=List.replicate r.waits.length false++true::
      ((log s r.cycles).flatMap (fun a => wordLine (operation_in s.regs) a.answer)++
        SerialBits.bits (crcLine (BitVec.allOnes 32)
          ((log s r.cycles).flatMap fun a => wordLine (operation_in s.regs) a.answer))) := by
  rcases h.start with ⟨hstatus,a,hlog,haddr,hcoded,hanswer⟩
  have hpos : (count_data_in s.regs).toNat=(count_data_in s.regs).toNat-1+1 := by
    have hne : (count_data_in s.regs).toNat≠0 := fun hzero =>
      h.command.words (BitVec.eq_of_toNat_eq hzero)
    omega
  have hlt := (count_data_in s.regs).isLt
  have hdata := h.data
  rw [←wordBits_eq (Or.inl h.read)] at hdata
  have htime := ((meets_append _ _ _ _ _).mp h.inTime).2
  have hu : ∀ c ∈ r.body,c.update_dr_i=false := fun c hc => (h.shifts c hc).2.1
  generalize (count_data_in s.regs).toNat-1=n at hpos
  rw [hpos] at hstatus hlt hdata ⊢
  unfold Run.cycles
  rw [log_append,hlog]
  generalize after System.step s r.head=t at *
  unfold Run.body at hu htime ⊢
  rcases wait_run hstatus (fun c hc => hu c (by simp [hc])) h.waits with
    ⟨hwaits,houtw,hlogw,hanswerw⟩
  rw [output_append,log_append,houtw,hlogw,List.nil_append,output_cons,log_cons]
  rcases (meets_append _ _ _ _ _).mp htime with ⟨-,-,htd⟩
  generalize after System.step t r.waits=t' at *
  have hrd : rd_op (operation_in s.regs)=true := h.read
  rcases ready_step hwaits hlt hrd (hu r.ready (by simp)) h.ready with
    ⟨hsends,htdo,haccess,hnew⟩
  have hburst := hsends.burst (by omega) hrd hdata (fun c hc => hu c (by simp [hc]))
    ((meets_append _ _ _ _ _).mp htd).1
  have huc : ∀ c ∈ r.checksum,c.update_dr_i=false := fun c hc => hu c (by simp [hc])
  rcases checksum_sent hburst.state huc with ⟨houtc,hlogc⟩
  rw [htdo,haccess,output_append,log_append,hlogc,houtc,h.checksum,List.append_nil]
  -- the words of all accesses are what the line has carried
  have hline : output (t'.step r.ready) r.data=
      ([a]++((if n=0 then [] else [t'.access r.ready])++log (t'.step r.ready) r.data)).flatMap
        fun a => wordLine (operation_in s.regs) a.answer := by
    rw [hburst.output,hanswerw,hanswer]
    by_cases hn : n=0
    · rw [if_pos hn,if_pos hn]
      simp only [List.append_nil,List.nil_append,List.flatMap_append,List.flatMap_cons,
        List.flatMap_nil]
    · rw [if_neg hn,if_neg hn,hnew hn]
      simp only [List.append_nil,List.flatMap_append,List.flatMap_cons,List.flatMap_nil,
        List.append_assoc]
  refine ⟨?_,?_,?_⟩
  · rw [List.map_append,List.map_append,hburst.addresses,List.map_singleton,haddr,addresses_succ]
    refine congrArg (List.cons _) ((List.nil_append _).trans ?_)
    by_cases hn : n=0
    · rw [if_pos hn,if_pos hn,hn]
      rfl
    · have hsucc : n=n-1+1 := by omega
      have haccess' : (t'.access r.ready).address=
          address_data_in s.regs+(word_size_bytes (operation_in s.regs)).setWidth 32 :=
        hwaits.address
      rw [if_neg hn,if_neg hn,List.map_singleton,haccess',hsucc,addresses_succ,Nat.add_sub_cancel]
      rfl
  · intro b hb
    rcases List.mem_append.mp hb with hb | hb
    · exact List.mem_singleton.mp hb ▸ hcoded
    · rcases List.mem_append.mp hb with hb | hb
      · by_cases hn : n=0
        · rw [if_pos hn] at hb
          exact absurd hb List.not_mem_nil
        · rw [if_neg hn,List.mem_singleton] at hb
          exact hb ▸ coded_access r.ready hwaits.operation
      · exact hburst.coded b hb
  · rw [hburst.crc,hline]
    rfl

end Complete

end Pulpissimo.AdvDbg.LintRead
