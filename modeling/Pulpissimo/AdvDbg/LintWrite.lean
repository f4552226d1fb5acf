import Mathlib.Data.BitVec
import Pulpissimo.AdvDbg.LintBurst

/-!
# Write bursts of the debug unit

Behind a start bit every word is shifted in, and its access is made in the cycle
of its last bit. The checksum that follows is compared with that of the bits.
-/

namespace Pulpissimo.AdvDbg.LintWrite

open Pulpissimo.Machine Pulpissimo.SerialBits Pulpissimo.AdvDbg.LintModule
  Pulpissimo.AdvDbg.LintBurst
open Pulpissimo.AdvDbg.LintBiu (Width swapped_data_i)

variable {w : Width}

/-- Serial input of some cycles. -/
def tdis (cs : List (Cycle w)) : List Bool := cs.map Cycle.tdi_i

theorem tdis_append (cs ds : List (Cycle w)) : tdis (cs++ds)=tdis cs++tdis ds := List.map_append

/-- The module has taken `k` bits of a word in a write burst. -/
structure Takes (operation : BitVec 4) (address : BitVec 32) (left k : ℕ) (crc : BitVec 32)
    (data : BitVec 64) (s : State) : Prop where
  state : s.module_state=.STATE_Wburst
  operation : s.operation=operation
  address : s.address_counter=address
  words : s.word_count=BitVec.ofNat 16 left
  count : s.bit_count=BitVec.ofNat 6 k
  crc : s.crc=crc
  data : s.data_register_i=data

/-- All words have been taken, and `k` bits of the checksum that follows. -/
structure Compares (k : ℕ) (crc : BitVec 32) (data : BitVec 64) (s : State) : Prop where
  state : s.module_state=.STATE_Wcrc
  count : s.bit_count=BitVec.ofNat 6 k
  crc : s.crc=crc
  data : s.data_register_i=data

section Word

variable {operation : BitVec 4} {address : BitVec 32} {left k : ℕ} {crc : BitVec 32}
  {data : BitVec 64} {s : System w} {c : Cycle w}

/-- A cycle that shifts. -/
theorem shifted_eq (hc : Shifts c) : s.shifted c=shiftIn s.regs.data_register_i c.tdi_i := by
  unfold System.shifted
  rw [hc.1,hc.2.2.1]
  rfl

/-- Outputs of the control machine while it takes words. -/
theorem out_Wburst (h : s.regs.module_state=.STATE_Wburst) {last : Bool}
    (hlast : bit_count_max s.regs=last) :
    s.out c={ bit_ct_en := true
              crc_en := true
              crc_in_sel := true
              top_inhibit_o := true
              error_reg_en := last
              bit_ct_rst := last
              biu_strobe := last
              addr_ct_en := last
              word_ct_en := last } := by
  subst hlast
  unfold System.out LintModule.control
  rw [h]

/-- A bit that is not the last one of its word. -/
theorem Takes.next (h : Takes operation address left k crc data s.regs)
    (hk : k+1<wordBits operation) (hc : Shifts c) :
    Takes operation address left (k+1) (crcStep 0xEDB88320#32 crc c.tdi_i) (shiftIn data c.tdi_i)
      (s.step c).regs ∧ s.accesses c=[] := by
  have hmax : bit_count_max s.regs=false := by
    rw [bit_count_max_eq h.count (by rw [h.operation]; omega),h.operation]
    exact decide_eq_false (Nat.ne_of_lt hk)
  have hout := out_Wburst (c := c) h.state hmax
  refine ⟨?_,(accesses_none (by rw [hout])).1⟩
  rw [step_regs s c hout]
  refine ⟨?_,h.operation,h.address,h.words,?_,?_,?_⟩
  · unfold module_next_state
    rw [h.state,hmax]
    exact if_neg (by rw [show (s.input c).update_dr_i=false from hc.2.1]; decide)
  · exact (congrArg (· +1#6) h.count).trans (BitVec.ofNat_add ..).symm
  · exact (new_crc_eq _ _).trans (by rw [h.crc]; rfl)
  · exact (shifted_eq hc).trans (by rw [h.data])

/-- The last bit of a word makes its access. -/
theorem Takes.strobe (h : Takes operation address left k crc data s.regs)
    (hk : k+1=wordBits operation) (ht : InTime s c) :
    s.out c={ bit_ct_en := true
              crc_en := true
              crc_in_sel := true
              top_inhibit_o := true
              error_reg_en := true
              bit_ct_rst := true
              biu_strobe := true
              addr_ct_en := true
              word_ct_en := true } ∧
    bit_count_max s.regs=true ∧ s.accesses c=[s.access c] ∧
    (s.access c).address=address ∧ Coded operation (s.access c) ∧
    (s.access c).data=swapped_data_i w (s.access c).enables (shiftIn data c.tdi_i) := by
  have hmax : bit_count_max s.regs=true := by
    rw [bit_count_max_eq h.count (by rw [h.operation]; omega),h.operation]
    exact decide_eq_true hk
  have hout := out_Wburst (c := c) h.state hmax
  refine ⟨hout,hmax,(accesses_some (by rw [hout]) ht).1,h.address,coded_access c h.operation,?_⟩
  have hdata : data_to_biu s.regs (s.input c)=shiftIn data c.tdi_i := by
    unfold data_to_biu
    rw [h.data]
    rfl
  unfold System.access
  rw [hdata]

/-- The last bit of a word while words are left. -/
theorem Takes.more (h : Takes operation address (left+1) k crc data s.regs) (hleft : left+1<2^16)
    (hk : k+1=wordBits operation) (hc : Shifts c) (ht : InTime s c) :
    Takes operation (address+(word_size_bytes operation).setWidth 32) left 0
      (crcStep 0xEDB88320#32 crc c.tdi_i) (shiftIn data c.tdi_i) (s.step c).regs := by
  rcases h.strobe hk ht with ⟨hout,hmax,-⟩
  have hzero : word_count_zero s.regs=false := by
    rw [word_count_zero_eq h.words hleft]
    exact decide_eq_false (Nat.succ_ne_zero left)
  rw [step_regs s c hout]
  refine ⟨?_,h.operation,?_,decremented_eq h.words,rfl,?_,?_⟩
  · unfold module_next_state
    rw [h.state,hmax,hzero]
    exact if_neg (by rw [show (s.input c).update_dr_i=false from hc.2.1]; decide)
  · change incremented_address s.regs=_
    unfold incremented_address
    rw [h.operation,h.address]
  · exact (new_crc_eq _ _).trans (by rw [h.crc]; rfl)
  · exact (shifted_eq hc).trans (by rw [h.data])

/-- The last bit of the last word. -/
theorem Takes.done (h : Takes operation address 0 k crc data s.regs)
    (hk : k+1=wordBits operation) (hc : Shifts c) (ht : InTime s c) :
    Compares 0 (crcStep 0xEDB88320#32 crc c.tdi_i) (shiftIn data c.tdi_i) (s.step c).regs := by
  rcases h.strobe hk ht with ⟨hout,hmax,-⟩
  have hzero : word_count_zero s.regs=true := by
    rw [word_count_zero_eq h.words (by decide)]
    rfl
  rw [step_regs s c hout]
  refine ⟨?_,rfl,?_,?_⟩
  · unfold module_next_state
    rw [h.state,hmax,hzero]
    exact if_neg (by rw [show (s.input c).update_dr_i=false from hc.2.1]; decide)
  · exact (new_crc_eq _ _).trans (by rw [h.crc]; rfl)
  · exact (shifted_eq hc).trans (by rw [h.data])

/-- Bits before the last one of a word. -/
theorem Takes.bits {cs : List (Cycle w)} (h : Takes operation address left k crc data s.regs)
    (hk : k+cs.length<wordBits operation) (hc : ∀ c ∈ cs,Shifts c) :
    Takes operation address left (k+cs.length) (crcLine crc (tdis cs))
      ((tdis cs).foldl shiftIn data) (after System.step s cs).regs ∧ log s cs=[] := by
  induction cs generalizing s k crc data with
  | nil => exact ⟨h,rfl⟩
  | cons c cs ih =>
    rw [List.length_cons] at hk
    rcases h.next (by omega) (hc c List.mem_cons_self) with ⟨hnext,hnone⟩
    rcases ih hnext (by omega) (fun d hd => hc d (List.mem_cons_of_mem c hd)) with ⟨hend,hlog⟩
    refine ⟨?_,by rw [log_cons,hnone,hlog]; rfl⟩
    rw [List.length_cons,Nat.add_comm cs.length,←Nat.add_assoc]
    exact hend

/-- The access of a word and what follows it. -/
theorem Takes.word {cs : List (Cycle w)} {line : List Bool} {word : BitVec (wordBits operation)}
    (h : Takes operation address left line.length (crcLine crc line) (line.foldl shiftIn data) s.regs)
    (hline : line++tdis cs=SerialBits.bits word) (hlt : line.length<wordBits operation)
    (hleft : left<2^16) (hc : ∀ c ∈ cs,Shifts c) (ht : Meets System.step InTime s cs) :
    ∃ a,log s cs=[a] ∧ a.address=address ∧ Coded operation a ∧
      a.data=swapped_data_i w a.enables ((SerialBits.bits word).foldl shiftIn data) ∧
      (left=0 → Compares 0 (crcLine crc (SerialBits.bits word))
        ((SerialBits.bits word).foldl shiftIn data) (after System.step s cs).regs) ∧
      (left≠0 → Takes operation (address+(word_size_bytes operation).setWidth 32) (left-1) 0
        (crcLine crc (SerialBits.bits word)) ((SerialBits.bits word).foldl shiftIn data)
        (after System.step s cs).regs) := by
  have hlen : line.length+cs.length=wordBits operation := by
    have hboth := congrArg List.length hline
    rwa [List.length_append,length_bits,tdis,List.length_map] at hboth
  rcases List.eq_nil_or_concat cs with rfl | ⟨init,c,rfl⟩
  · rw [List.length_nil] at hlen
    omega
  · rw [List.concat_eq_append] at *
    rw [List.length_append,List.length_singleton] at hlen
    rcases h.bits (by omega) (fun d hd => hc d (List.mem_append_left _ hd)) with ⟨hend,hlog⟩
    have htime : InTime (after System.step s init) c := ((meets_append _ _ _ _ _).mp ht).2.1
    have hcrc : crcStep 0xEDB88320#32 (crcLine (crcLine crc line) (tdis init)) c.tdi_i=
        crcLine crc (SerialBits.bits word) := by
      rw [←hline,tdis_append,crcLine_append,crcLine_append]
      rfl
    have hdata : shiftIn ((tdis init).foldl shiftIn (line.foldl shiftIn data)) c.tdi_i=
        (SerialBits.bits word).foldl shiftIn data := by
      rw [←hline,tdis_append,List.foldl_append,List.foldl_append]
      rfl
    have hk : line.length+init.length+1=wordBits operation := by omega
    rcases hend.strobe hk htime with ⟨-,-,haccess,haddr,hcoded,hword⟩
    rw [hdata] at hword
    have hcs := hc c (by simp)
    refine ⟨_,?_,haddr,hcoded,hword,fun hl => ?_,fun hl => ?_⟩
    · rw [log_append,hlog,log_cons,haccess]
      rfl
    · subst hl
      have hdone := hend.done hk hcs htime
      rw [hcrc,hdata] at hdone
      rw [after_concat]
      exact hdone
    · have hsucc : left=left-1+1 := by omega
      rw [hsucc] at hend
      have hmore := hend.more (by omega) hk hcs htime
      rw [hcrc,hdata] at hmore
      rw [after_concat]
      exact hmore

/-- The data of an access are a word that was at the top of the input shift register. -/
def Holds {n : ℕ} (a : Access w) (word : BitVec n) : Prop :=
  ∃ data : BitVec 64,a.data=swapped_data_i w a.enables data ∧ data.extractLsb' (64-n) n=word

/-- What a part of a write burst leaves: the accesses with their words, and the checksum. -/
structure Written (operation : BitVec 4) (addrs : List (BitVec 32))
    (words : List (BitVec (wordBits operation))) (crc : BitVec 32) (s : System w)
    (cs : List (Cycle w)) : Prop where
  addresses : (log s cs).map Access.address=addrs
  coded : ∀ a ∈ log s cs,Coded operation a
  words : List.Forall₂ Holds (log s cs) words
  compares : ∃ data,Compares 0 crc data (after System.step s cs).regs

/-- Cycles that take a word and then others split where it ends. -/
theorem split_word {cs : List (Cycle w)} {line rest : List Bool}
    {word : BitVec (wordBits operation)} (hline : line++tdis cs=SerialBits.bits word++rest)
    (hlt : line.length<wordBits operation) :
    ∃ before later,cs=before++later ∧ line++tdis before=SerialBits.bits word ∧ tdis later=rest := by
  have hfirst : (SerialBits.bits word).length=wordBits operation := length_bits word
  have hcut : (line++tdis (cs.take (wordBits operation-line.length))).length=
      (SerialBits.bits word).length := by
    have hboth := congrArg List.length hline
    rw [List.length_append,List.length_append,hfirst,tdis,List.length_map] at hboth
    rw [List.length_append,tdis,List.length_map,List.length_take,hfirst]
    omega
  refine ⟨_,_,(List.take_append_drop (wordBits operation-line.length) cs).symm,?_⟩
  rw [←List.take_append_drop (wordBits operation-line.length) cs,tdis_append,
    ←List.append_assoc] at hline
  exact List.append_inj hline hcut

/-- All words of a write burst, of the first of which some bits have been taken. -/
theorem Takes.burst {cs : List (Cycle w)} (line : List Bool) {word : BitVec (wordBits operation)}
    {words : List (BitVec (wordBits operation))}
    (h : Takes operation address words.length line.length (crcLine crc line)
      (line.foldl shiftIn data) s.regs)
    (hline : line++tdis cs=SerialBits.bits word++words.flatMap SerialBits.bits)
    (hlt : line.length<wordBits operation) (hleft : words.length<2^16) (hc : ∀ c ∈ cs,Shifts c)
    (ht : Meets System.step InTime s cs) :
    Written operation (addresses operation address (words.length+1)) (word::words)
      (crcLine crc (SerialBits.bits word++words.flatMap SerialBits.bits)) s cs := by
  induction words generalizing address word line crc data s cs with
  | nil =>
    rw [List.flatMap_nil,List.append_nil] at *
    rcases h.word hline hlt hleft hc ht with ⟨a,hlog,haddr,hcoded,hdata,hlast,-⟩
    have hplace := extract_foldl_shiftIn data word (wordBits_le operation)
    refine ⟨?_,?_,?_,_,hlast rfl⟩
    · rw [hlog,List.map_singleton,haddr,List.length_nil,addresses_succ]
      rfl
    · rw [hlog]
      intro b hb
      exact List.mem_singleton.mp hb ▸ hcoded
    · rw [hlog]
      exact List.Forall₂.cons ⟨_,hdata,hplace⟩ List.Forall₂.nil
  | cons next words ih =>
    rcases split_word hline hlt with ⟨before,later,rfl,hword,hrest⟩
    rcases (meets_append _ _ _ _ _).mp ht with ⟨htb,htl⟩
    rcases h.word hword hlt hleft (fun c hc' => hc c (List.mem_append_left _ hc')) htb with
      ⟨a,hlog,haddr,hcoded,hdata,-,hmore⟩
    have hplace := extract_foldl_shiftIn data word (wordBits_le operation)
    rw [List.length_cons] at *
    have hnext := ih [] (hmore (Nat.succ_ne_zero _)) hrest (Nat.succ_pos _)
      (by omega) (fun c hc' => hc c (List.mem_append_right _ hc')) htl
    refine ⟨?_,?_,?_,?_⟩
    · rw [log_append,hlog,List.map_append,hnext.addresses,List.map_singleton,haddr,
        addresses_succ operation address]
      rfl
    · rw [log_append,hlog]
      intro b hb
      rcases List.mem_append.mp hb with hb | hb
      · exact List.mem_singleton.mp hb ▸ hcoded
      · exact hnext.coded b hb
    · rw [log_append,hlog]
      exact List.Forall₂.cons ⟨_,hdata,hplace⟩ hnext.words
    · rw [after_append,crcLine_append]
      exact hnext.compares

/-- The bits of the checksum that is sent are shifted in. -/
theorem Compares.bits {cs : List (Cycle w)} (h : Compares k crc data s.regs)
    (hk : k+cs.length≤32) (hc : ∀ c ∈ cs,Shifts c) :
    Compares (k+cs.length) crc ((tdis cs).foldl shiftIn data) (after System.step s cs).regs ∧
      log s cs=[] := by
  induction cs generalizing s k data with
  | nil => exact ⟨h,rfl⟩
  | cons c cs ih =>
    rw [List.length_cons] at hk
    have hnot : bit_count_32 s.regs=false := by
      unfold bit_count_32
      rw [h.count,beq_eq_false_iff_ne,Ne,←BitVec.toNat_inj,BitVec.toNat_ofNat]
      have hsmall : k%2^6=k := Nat.mod_eq_of_lt (by omega)
      have hmax : (0x20#6).toNat=32 := rfl
      rw [hsmall,hmax]
      exact Nat.ne_of_lt (by omega)
    have hnext : module_next_state s.regs (s.input c)=.STATE_Wcrc := by
      unfold module_next_state
      rw [h.state,hnot]
      refine if_neg ?_
      rw [show (s.input c).update_dr_i=false from (hc c List.mem_cons_self).2.1]
      decide
    have hout : s.out c={ bit_ct_en := true, top_inhibit_o := true, tdo_output_sel := 1#2 } := by
      unfold System.out LintModule.control
      rw [h.state]
      dsimp only
      rw [hnext]
      rfl
    have hone : Compares (k+1) crc (shiftIn data c.tdi_i) (s.step c).regs := by
      rw [step_regs s c hout]
      refine ⟨hnext,?_,h.crc,?_⟩
      · exact (congrArg (· +1#6) h.count).trans (BitVec.ofNat_add ..).symm
      · exact (shifted_eq (hc c List.mem_cons_self)).trans (by rw [h.data])
    rcases ih hone (by omega) (fun d hd => hc d (List.mem_cons_of_mem c hd)) with ⟨hend,hlog⟩
    refine ⟨?_,by rw [log_cons,hlog,(accesses_none (by rw [hout])).1]; rfl⟩
    rw [List.length_cons,Nat.add_comm cs.length,←Nat.add_assoc]
    exact hend

/-- Behind them the serial output tells whether the checksum matches. -/
theorem Compares.tdo (h : Compares 32 crc data s.regs) (hc : Shifts c) :
    s.tdo c=(data.extractLsb' 32 32==crc) ∧ s.accesses c=[] := by
  have hmax : bit_count_32 s.regs=true := by
    unfold bit_count_32
    rw [h.count]
    rfl
  have hnext : module_next_state s.regs (s.input c)=.STATE_Wmatch := by
    unfold module_next_state
    rw [h.state,hmax]
    refine if_neg ?_
    rw [show (s.input c).update_dr_i=false from hc.2.1]
    decide
  have hout : s.out c={ bit_ct_en := true, top_inhibit_o := true, tdo_output_sel := 2#2 } := by
    unfold System.out LintModule.control
    rw [h.state]
    dsimp only
    rw [hnext]
    rfl
  refine ⟨(tdo_of_out s c hout).trans ?_,(accesses_none (by rw [hout])).1⟩
  change crc_match s.regs=_
  unfold crc_match
  rw [h.data,h.crc]

end Word

section Start

variable {operation : BitVec 4} {address : BitVec 32} {n : ℕ} {data : BitVec 64} {s : System w}
  {c : Cycle w}

/-- Nothing happens between the scans. -/
theorem pause_step (h : Begun .STATE_Wready operation address n s.regs) (hn : 0<n) (hlt : n<2^16)
    (hc : Pauses c) : Begun .STATE_Wready operation address n (s.step c).regs ∧ s.accesses c=[] ∧
      (s.step c).regs.data_register_i=s.regs.data_register_i := by
  have hout : s.out c={ } := by
    unfold System.out LintModule.control
    rw [h.state]
  have hzero : word_count_zero s.regs=false := by
    rw [word_count_zero_eq h.words hlt]
    exact decide_eq_false (Nat.ne_of_gt hn)
  refine ⟨?_,(accesses_none (by rw [hout])).1,?_⟩
  · rw [step_regs s c hout]
    refine ⟨?_,h.operation,h.address,h.words,h.count,h.crc⟩
    unfold module_next_state
    rw [h.state,hzero]
    exact if_neg (by rw [show (s.input c).capture_dr_i=false from hc.1,Bool.and_false]; decide)
  · rw [step_regs s c hout]
    unfold System.shifted
    rw [hc.2.1,Bool.and_false]
    rfl

/-- Nothing happens however long the pause between the scans is. -/
theorem pause_run {cs : List (Cycle w)} (h : Begun .STATE_Wready operation address n s.regs)
    (hn : 0<n) (hlt : n<2^16) (hc : ∀ c ∈ cs,Pauses c) :
    Begun .STATE_Wready operation address n (after System.step s cs).regs ∧ log s cs=[] ∧
      (after System.step s cs).regs.data_register_i=s.regs.data_register_i := by
  induction cs generalizing s with
  | nil => exact ⟨h,rfl,rfl⟩
  | cons c cs ih =>
    rcases pause_step h hn hlt (hc c List.mem_cons_self) with ⟨hnext,hnone,hdata⟩
    rcases ih hnext (fun d hd => hc d (List.mem_cons_of_mem c hd)) with ⟨hend,hlog,hkeep⟩
    exact ⟨hend,by rw [log_cons,hnone,hlog]; rfl,hkeep.trans hdata⟩

/-- The scan begins. -/
theorem capture_step (h : Begun .STATE_Wready operation address n s.regs) (hn : 0<n)
    (hlt : n<2^16) (hc : Captures c) :
    Begun .STATE_Wwait operation address n (s.step c).regs ∧ s.accesses c=[] ∧
      (s.step c).regs.data_register_i=s.regs.data_register_i := by
  have hout : s.out c={ } := by
    unfold System.out LintModule.control
    rw [h.state]
  have hzero : word_count_zero s.regs=false := by
    rw [word_count_zero_eq h.words hlt]
    exact decide_eq_false (Nat.ne_of_gt hn)
  refine ⟨?_,(accesses_none (by rw [hout])).1,?_⟩
  · rw [step_regs s c hout]
    refine ⟨?_,h.operation,h.address,h.words,h.count,h.crc⟩
    unfold module_next_state
    rw [h.state,hzero]
    refine if_pos ?_
    rw [show (s.input c).module_select_i=true from hc.2.2.2,
      show (s.input c).capture_dr_i=true from hc.1]
    rfl
  · rw [step_regs s c hout]
    unfold System.shifted
    rw [hc.2.1,Bool.and_false]
    rfl

/-- Without a start bit the module waits. -/
theorem wait_step (h : Begun .STATE_Wwait operation address n s.regs)
    (htop : s.regs.data_register_i.getLsbD 63=false) (hc : Shifts c) :
    Begun .STATE_Wwait operation address n (s.step c).regs ∧ s.accesses c=[] ∧
      (s.step c).regs.data_register_i.getLsbD 63=c.tdi_i := by
  have hnext : module_next_state s.regs (s.input c)=.STATE_Wwait := by
    unfold module_next_state
    rw [h.state,htop,Bool.and_false]
    exact if_neg (by rw [show (s.input c).update_dr_i=false from hc.2.1]; decide)
  have hout : s.out c={ top_inhibit_o := true } := by
    unfold System.out LintModule.control
    rw [h.state]
    dsimp only
    rw [hnext]
    rfl
  refine ⟨?_,(accesses_none (by rw [hout])).1,?_⟩
  · rw [step_regs s c hout]
    exact ⟨hnext,h.operation,h.address,h.words,h.count,h.crc⟩
  · rw [step_regs s c hout]
    change (s.shifted c).getLsbD 63=c.tdi_i
    rw [shifted_eq hc,getLsbD_shiftIn_top]

/-- Behind the start bit comes the first bit of the first word. -/
theorem begin_step (h : Begun .STATE_Wwait operation address (n+1) s.regs)
    (htop : s.regs.data_register_i.getLsbD 63=true) (hc : Shifts c) :
    Takes operation address n 1 (crcStep 0xEDB88320#32 (BitVec.allOnes 32) c.tdi_i)
      (shiftIn s.regs.data_register_i c.tdi_i) (s.step c).regs ∧ s.accesses c=[] := by
  have hnext : module_next_state s.regs (s.input c)=.STATE_Wburst := by
    unfold module_next_state
    rw [h.state,htop,show (s.input c).update_dr_i=false from hc.2.1,
      show (s.input c).module_select_i=true from hc.2.2.2]
    rfl
  have hout : s.out c={ top_inhibit_o := true
                        bit_ct_en := true
                        word_ct_en := true
                        crc_en := true
                        crc_in_sel := true } := by
    unfold System.out LintModule.control
    rw [h.state]
    dsimp only
    rw [hnext]
    rfl
  refine ⟨?_,(accesses_none (by rw [hout])).1⟩
  rw [step_regs s c hout]
  refine ⟨hnext,h.operation,h.address,decremented_eq h.words,?_,?_,shifted_eq hc⟩
  · exact congrArg (· +1#6) h.count
  · exact (new_crc_eq _ _).trans (by rw [h.crc]; rfl)

/-- The module waits while zeros are shifted in, and sees the start bit behind them. -/
theorem wait_run {zeros : List (Cycle w)} (h : Begun .STATE_Wwait operation address n s.regs)
    (htop : s.regs.data_register_i.getLsbD 63=false) (hz : ∀ c ∈ zeros,Shifts c ∧ c.tdi_i=false)
    (hc : Shifts c) (hone : c.tdi_i=true) :
    Begun .STATE_Wwait operation address n (after System.step s (zeros++[c])).regs ∧
      log s (zeros++[c])=[] ∧
      (after System.step s (zeros++[c])).regs.data_register_i.getLsbD 63=true := by
  induction zeros generalizing s with
  | nil =>
    rcases wait_step h htop hc with ⟨hnext,hnone,hbit⟩
    exact ⟨hnext,by rw [List.nil_append,log_cons,hnone]; rfl,hbit.trans hone⟩
  | cons d zeros ih =>
    rcases hz d List.mem_cons_self with ⟨hd,hzero⟩
    rcases wait_step h htop hd with ⟨hnext,hnone,hbit⟩
    rcases ih hnext (hbit.trans hzero) (fun e he => hz e (List.mem_cons_of_mem d he)) with
      ⟨hend,hlog,hlast⟩
    exact ⟨hend,by rw [List.cons_append,log_cons,hnone,hlog]; rfl,hlast⟩

end Start

/-- The cycles of a write burst. -/
structure Run (w : Width) where
  /-- Takes the command. -/
  update : Cycle w
  /-- The pause between the scans. -/
  gap : List (Cycle w)
  /-- Begins the scan of the data. -/
  capture : Cycle w
  /-- Zeros before the start bit. -/
  zeros : List (Cycle w)
  /-- The start bit. -/
  start : Cycle w
  /-- One cycle for every bit. -/
  data : List (Cycle w)
  /-- One cycle for every bit of the checksum. -/
  checksum : List (Cycle w)
  /-- The match bit is read. -/
  result : Cycle w

/-- Cycles up to the start bit. -/
def Run.head (r : Run w) : List (Cycle w) := r.update::(r.gap++r.capture::(r.zeros++[r.start]))

/-- All cycles but the last one. -/
def Run.sent (r : Run w) : List (Cycle w) := r.head++(r.data++r.checksum)

/-- All cycles. -/
def Run.cycles (r : Run w) : List (Cycle w) := r.sent++[r.result]

/-- The command is a burst write of some words, its scans are those of the TAP and are run to
completion, and the bus answers in time. -/
structure Run.Complete (r : Run w) (s : System w)
    (words : List (BitVec (8*wordBytes (operation_in s.regs)))) : Prop where
  command : Commands s.regs
  write : burst_write (operation_in s.regs)=true
  count : words.length=(count_data_in s.regs).toNat
  update : Updates r.update
  gap : ∀ c ∈ r.gap,Pauses c
  capture : Captures r.capture
  zeros : ∀ c ∈ r.zeros,Shifts c ∧ c.tdi_i=false
  start : Shifts r.start ∧ r.start.tdi_i=true
  data : (∀ c ∈ r.data,Shifts c) ∧ tdis r.data=words.flatMap SerialBits.bits
  checksum : (∀ c ∈ r.checksum,Shifts c) ∧ r.checksum.length=32
  result : Shifts r.result
  inTime : Meets System.step InTime s r.cycles

section Complete

variable {r : Run w} {s : System w}
  {words : List (BitVec (8*wordBytes (operation_in s.regs)))}

theorem rd_op_write {operation : BitVec 4} (h : burst_write operation=true) :
    burst_read operation=false := by
  revert operation
  decide

theorem wordBits_write {operation : BitVec 4} (h : burst_write operation=true) :
    1<wordBits operation := by
  revert operation
  decide

/-- At the start bit the module has taken the command and made no access. -/
theorem Run.Complete.begin (h : r.Complete s words) :
    Begun .STATE_Wwait (operation_in s.regs) (address_data_in s.regs) (count_data_in s.regs).toNat
      (after System.step s r.head).regs ∧ log s r.head=[] ∧
    (after System.step s r.head).regs.data_register_i.getLsbD 63=true := by
  have hours : module_cmd s.regs=true := by
    unfold module_cmd
    rw [h.command.ours]
    rfl
  have hstate : module_next_state s.regs (s.input r.update)=.STATE_Wready := by
    unfold module_next_state
    rw [h.command.idle,hours,show (s.input r.update).module_select_i=true from h.update.2.1,
      show (s.input r.update).update_dr_i=true from h.update.1,h.write,rd_op_write h.write]
    rfl
  have hpos : 0<(count_data_in s.regs).toNat := by
    refine Nat.pos_of_ne_zero fun hzero => h.command.words ?_
    exact BitVec.eq_of_toNat_eq hzero
  have hlt := (count_data_in s.regs).isLt
  rcases h.command.update hstate (by decide) with ⟨hbegun,hnone,hdata⟩
  have htop : (s.step r.update).regs.data_register_i.getLsbD 63=false := by
    rw [hdata]
    unfold System.shifted
    rw [h.update.2.2,Bool.and_false]
    exact h.command.ours
  rcases pause_run hbegun hpos hlt h.gap with ⟨hgap,hlogg,hkeep⟩
  rcases capture_step hgap hpos hlt h.capture with ⟨hcapture,hlogc,hkeep'⟩
  rw [←hkeep,←hkeep'] at htop
  rcases wait_run hcapture htop h.zeros h.start.1 h.start.2 with ⟨hwait,hlogw,hbit⟩
  unfold Run.head
  rw [after_cons,after_append,after_cons,log_cons,log_append,log_cons,hnone,hlogg,hlogc,hlogw]
  exact ⟨hwait,rfl,hbit⟩

/-- Words of a width that is written in two ways. -/
theorem flatMap_bits_cast {a b : ℕ} (h : a=b) (words : List (BitVec a)) :
    (words.map (BitVec.cast h)).flatMap SerialBits.bits=words.flatMap SerialBits.bits := by
  subst h
  rw [List.flatMap_map]
  rfl

theorem holds_of_cast {a b : ℕ} (h : a=b) {access : Access w} {word : BitVec a}
    (hword : Holds access (word.cast h)) : Holds access word := by
  subst h
  exact hword

/-- The whole burst: the accesses, and the match bit behind the checksum. -/
theorem Run.Complete.run (h : r.Complete s words) :
    (log s r.cycles).map Access.address=
      addresses (operation_in s.regs) (address_data_in s.regs) (count_data_in s.regs).toNat ∧
    (∀ a ∈ log s r.cycles,Coded (operation_in s.regs) a) ∧
    List.Forall₂ Holds (log s r.cycles) words ∧
    ∀ sent : BitVec 32,tdis r.checksum=SerialBits.bits sent →
      (after System.step s r.sent).tdo r.result=
        (sent==crcLine (BitVec.allOnes 32) (words.flatMap SerialBits.bits)) := by
  rcases h.begin with ⟨hwait,hlogh,htop⟩
  have hlt := (count_data_in s.regs).isLt
  have hbits : 1<wordBits (operation_in s.regs) := wordBits_write h.write
  have hwidth := (wordBits_eq (Or.inr h.write)).symm
  have hcount := (List.length_map (BitVec.cast hwidth)).trans h.count
  have hdata := h.data
  rw [←flatMap_bits_cast hwidth] at hdata ⊢
  have hback : List.Forall₂ Holds (log s r.cycles) (words.map (BitVec.cast hwidth)) →
      List.Forall₂ Holds (log s r.cycles) words := by
    intro hwords
    rw [List.forall₂_map_right_iff] at hwords
    exact hwords.imp fun a word => holds_of_cast hwidth
  generalize words.map (BitVec.cast hwidth)=words' at *
  cases words' with
  | nil => exact absurd (BitVec.eq_of_toNat_eq hcount.symm) h.command.words
  | cons word words' =>
    rw [List.length_cons] at hcount
    rw [←hcount] at hwait hlt ⊢
    cases hcs : r.data with
    | nil =>
      have hnone := congrArg List.length hdata.2
      rw [hcs,List.flatMap_cons,List.length_append,length_bits] at hnone
      have hzero : (tdis ([] : List (Cycle w))).length=0 := rfl
      omega
    | cons c cs =>
      rw [hcs] at hdata
      have hcycles : r.cycles=r.head++(c::(cs++(r.checksum++[r.result]))) := by
        unfold Run.cycles Run.sent
        rw [hcs]
        simp only [List.append_assoc,List.cons_append]
      have hsent' : r.sent=r.head++(c::(cs++r.checksum)) := by
        unfold Run.sent
        rw [hcs]
        rfl
      have htime := h.inTime
      rw [hcycles] at htime hback ⊢
      have htd := ((meets_append _ _ _ _ _).mp htime).2.2
      rcases begin_step hwait htop (hdata.1 c List.mem_cons_self) with ⟨htakes,hnone⟩
      have hburst := Takes.burst [c.tdi_i] htakes hdata.2 hbits (by omega)
        (fun d hd => hdata.1 d (List.mem_cons_of_mem c hd)) ((meets_append _ _ _ _ _).mp htd).1
      rcases hburst.compares with ⟨reg,hcompares⟩
      rcases hcompares.bits (by rw [h.checksum.2]) h.checksum.1 with ⟨hchecked,hlogc⟩
      rw [h.checksum.2] at hchecked
      rcases hchecked.tdo h.result with ⟨htdo,hnone'⟩
      have hlog : log s (r.head++(c::(cs++(r.checksum++[r.result]))))=
          log ((after System.step s r.head).step c) cs := by
        rw [log_append,hlogh,log_cons,hnone,log_append,log_append,hlogc,log_cons,hnone']
        exact List.append_nil _
      rw [hlog] at hback ⊢
      refine ⟨hburst.addresses,hburst.coded,hback hburst.words,fun sent hsent => ?_⟩
      rw [hsent',after_append,after_cons,after_append,htdo,hsent]
      have hplace := extract_foldl_shiftIn reg sent (show 32≤64 by decide)
      exact congrArg (· ==_) hplace

end Complete

end Pulpissimo.AdvDbg.LintWrite
