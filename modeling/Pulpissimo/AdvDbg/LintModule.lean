import Mathlib.Data.BitVec
import Pulpissimo.AdvDbg.LintBiu
import Pulpissimo.Lib.Bits
import Pulpissimo.Lib.SerialBits

/-!
# The bus module of the debug unit

`adbg_lint_module` with its checksum unit `adbg_crc32` and the input shift
register of `adbg_lintonly_top`, in cycles of the JTAG clock. The bus unit is
seen through its ready bit, its data and the accesses that it is given.
-/

namespace Pulpissimo.AdvDbg.LintModule

open Pulpissimo.Bits Pulpissimo.SerialBits

/-- Burst write of bytes. -/
def DBG_LINT_CMD_BWRITE8 : BitVec 4 := 0x1#4
/-- Of half words. -/
def DBG_LINT_CMD_BWRITE16 : BitVec 4 := 0x2#4
/-- Of words. -/
def DBG_LINT_CMD_BWRITE32 : BitVec 4 := 0x3#4
/-- Of double words. -/
def DBG_LINT_CMD_BWRITE64 : BitVec 4 := 0x4#4
/-- Burst read of bytes. -/
def DBG_LINT_CMD_BREAD8 : BitVec 4 := 0x5#4
/-- Of half words. -/
def DBG_LINT_CMD_BREAD16 : BitVec 4 := 0x6#4
/-- Of words. -/
def DBG_LINT_CMD_BREAD32 : BitVec 4 := 0x7#4
/-- Of double words. -/
def DBG_LINT_CMD_BREAD64 : BitVec 4 := 0x8#4
/-- Write of an internal register. -/
def DBG_LINT_CMD_IREG_WR : BitVec 4 := 0x9#4
/-- Selection of an internal register. -/
def DBG_LINT_CMD_IREG_SEL : BitVec 4 := 0xD#4
/-- The only internal register. -/
def DBG_LINT_INTREG_ERROR : BitVec 1 := 0#1

/-- States of the control machine. -/
inductive Fsm
  | STATE_idle
  | STATE_Rbegin
  | STATE_Rready
  | STATE_Rstatus
  | STATE_Rburst
  | STATE_Wready
  | STATE_Wwait
  | STATE_Wburst
  | STATE_Wstatus
  | STATE_Rcrc
  | STATE_Wcrc
  | STATE_Wmatch
  deriving DecidableEq

/-- Registers. -/
structure State where
  /-- Input shift register of the top level. -/
  data_register_i : BitVec 64
  /-- Address of the next access. -/
  address_counter : BitVec 32
  /-- Bits of the word that have been shifted. -/
  bit_count : BitVec 6
  /-- Words that are left. -/
  word_count : BitVec 16
  /-- The current command. -/
  operation : BitVec 4
  /-- Output shift register. -/
  data_out_shift_reg : BitVec 65
  /-- Selected internal register. -/
  internal_register_select : BitVec 1
  /-- Address and bit of a bus error. -/
  internal_reg_error : BitVec 33
  /-- The checksum. -/
  crc : BitVec 32
  /-- State of the control machine. -/
  module_state : Fsm

/-- Values after reset. -/
def reset : State := ⟨0#64,0#32,0#6,0#16,0#4,0#65,0#1,0#33,BitVec.allOnes 32,.STATE_idle⟩

/-- One cycle of inputs. -/
structure Input where
  /-- Serial data. -/
  tdi_i : Bool
  /-- The TAP captures. -/
  capture_dr_i : Bool
  /-- The TAP shifts. -/
  shift_dr_i : Bool
  /-- The TAP updates. -/
  update_dr_i : Bool
  /-- The debug unit is selected by the TAP. -/
  debug_select_i : Bool
  /-- The bus module is selected by the top level. -/
  module_select_i : Bool
  /-- The bus unit has finished. -/
  biu_ready : Bool
  /-- Data of the bus unit. -/
  data_from_biu : BitVec 64

/-- Bits of a word, less one. Other operations are never in a burst. -/
def word_size_bits (operation : BitVec 4) : BitVec 6 :=
  if operation=DBG_LINT_CMD_BWRITE8 then 7#6
  else if operation=DBG_LINT_CMD_BWRITE16 then 15#6
  else if operation=DBG_LINT_CMD_BWRITE32 then 31#6
  else if operation=DBG_LINT_CMD_BWRITE64 then 63#6
  else if operation=DBG_LINT_CMD_BREAD8 then 7#6
  else if operation=DBG_LINT_CMD_BREAD16 then 15#6
  else if operation=DBG_LINT_CMD_BREAD32 then 31#6
  else if operation=DBG_LINT_CMD_BREAD64 then 63#6
  else 0#6

/-- Bytes of a word. -/
def word_size_bytes (operation : BitVec 4) : BitVec 4 :=
  if operation=DBG_LINT_CMD_BWRITE8 then 1#4
  else if operation=DBG_LINT_CMD_BWRITE16 then 2#4
  else if operation=DBG_LINT_CMD_BWRITE32 then 4#4
  else if operation=DBG_LINT_CMD_BWRITE64 then 8#4
  else if operation=DBG_LINT_CMD_BREAD8 then 1#4
  else if operation=DBG_LINT_CMD_BREAD16 then 2#4
  else if operation=DBG_LINT_CMD_BREAD32 then 4#4
  else if operation=DBG_LINT_CMD_BREAD64 then 4#4
  else 0#4

/-- A burst write command. -/
def burst_write (operation : BitVec 4) : Bool :=
  operation==DBG_LINT_CMD_BWRITE8 || operation==DBG_LINT_CMD_BWRITE16 ||
    operation==DBG_LINT_CMD_BWRITE32 || operation==DBG_LINT_CMD_BWRITE64

/-- A burst read command. -/
def burst_read (operation : BitVec 4) : Bool :=
  operation==DBG_LINT_CMD_BREAD8 || operation==DBG_LINT_CMD_BREAD16 ||
    operation==DBG_LINT_CMD_BREAD32 || operation==DBG_LINT_CMD_BREAD64

/-- The current command is a read. -/
def rd_op (operation : BitVec 4) : Bool := burst_read operation

/-- Bits of the checksum into which the input goes. -/
def taps : List ℕ := [5,8,9,15,19,20,21,23,24,26,27,29,30,31]

/-- The checksum after one more bit. -/
def new_crc (crc : BitVec 32) (data : Bool) : BitVec 32 :=
  ofBits fun i =>
    if i.val ∈ taps then crc.getLsbD (i.val+1) ^^ (data ^^ crc.getLsbD 0)
    else crc.getLsbD (i.val+1)

/-- Outputs of the control machine. -/
structure Control where
  /-- Selects the incremented address. -/
  addr_sel : Bool := true
  /-- Loads the address. -/
  addr_ct_en : Bool := false
  /-- Loads the command. -/
  op_reg_en : Bool := false
  /-- Counts a bit. -/
  bit_ct_en : Bool := false
  /-- Clears the bit counter. -/
  bit_ct_rst : Bool := false
  /-- Selects the decremented word count. -/
  word_ct_sel : Bool := true
  /-- Loads the word count. -/
  word_ct_en : Bool := false
  /-- Loads the output register. -/
  out_reg_ld_en : Bool := false
  /-- Shifts the output register. -/
  out_reg_shift_en : Bool := false
  /-- Source of the serial output: ready bit, output register, match bit or checksum. -/
  tdo_output_sel : BitVec 2 := 1#2
  /-- Starts an access. -/
  biu_strobe : Bool := false
  /-- Clears the checksum. -/
  crc_clr : Bool := false
  /-- Takes a bit into the checksum. -/
  crc_en : Bool := false
  /-- Takes it from the serial input. -/
  crc_in_sel : Bool := false
  /-- Shifts the checksum. -/
  crc_shift_en : Bool := false
  /-- Loads the output register from the internal register. -/
  out_reg_data_sel : Bool := true
  /-- Selects an internal register. -/
  regsel_ld_en : Bool := false
  /-- Writes the internal register. -/
  intreg_ld_en : Bool := false
  /-- Checks for a bus error. -/
  error_reg_en : Bool := false
  /-- Keeps the top level from taking a command. -/
  top_inhibit_o : Bool := false

section Code

variable (s : State) (i : Input)

/-- The command is for the module and not for the top level. -/
def module_cmd : Bool := !s.data_register_i.getLsbD 63

/-- Operation of a command. -/
def operation_in : BitVec 4 := s.data_register_i.extractLsb' 59 4

/-- Start address of a command. -/
def address_data_in : BitVec 32 := s.data_register_i.extractLsb' 27 32

/-- Number of words of a command. -/
def count_data_in : BitVec 16 := s.data_register_i.extractLsb' 11 16

/-- Internal register of a command. -/
def reg_select_data : BitVec 1 := s.data_register_i.extractLsb' 57 1

/-- The command is about an internal register. -/
def intreg_instruction : Bool :=
  operation_in s==DBG_LINT_CMD_IREG_WR || operation_in s==DBG_LINT_CMD_IREG_SEL

/-- It writes one. -/
def intreg_write : Bool := operation_in s==DBG_LINT_CMD_IREG_WR

/-- Data to the bus unit. -/
def data_to_biu : BitVec 64 := shiftIn s.data_register_i i.tdi_i

/-- The last bit of a word. -/
def bit_count_max : Bool := s.bit_count==word_size_bits s.operation

/-- All bits of the checksum have been shifted in. -/
def bit_count_32 : Bool := s.bit_count==0x20#6

/-- No word is left. -/
def word_count_zero : Bool := s.word_count==0#16

/-- The word count less one. -/
def decremented_word_count : BitVec 16 := s.word_count-1#16

/-- The address of the next word. -/
def incremented_address : BitVec 32 :=
  s.address_counter+(word_size_bytes s.operation).setWidth 32

/-- The checksum is the one that was shifted in. -/
def crc_match : Bool := s.data_register_i.extractLsb' 32 32==s.crc

/-- Next state of the control machine. -/
def module_next_state : Fsm :=
  match s.module_state with
  | .STATE_idle =>
    if module_cmd s && i.module_select_i && i.update_dr_i && burst_read (operation_in s) then
      .STATE_Rbegin
    else if module_cmd s && i.module_select_i && i.update_dr_i && burst_write (operation_in s) then
      .STATE_Wready
    else .STATE_idle
  | .STATE_Rbegin => if word_count_zero s then .STATE_idle else .STATE_Rready
  | .STATE_Rready => if i.module_select_i && i.capture_dr_i then .STATE_Rstatus else .STATE_Rready
  | .STATE_Rstatus =>
    if i.update_dr_i then .STATE_idle
    else if i.biu_ready then .STATE_Rburst
    else .STATE_Rstatus
  | .STATE_Rburst =>
    if i.update_dr_i then .STATE_idle
    else if bit_count_max s && word_count_zero s then .STATE_Rcrc
    else .STATE_Rburst
  | .STATE_Rcrc => if i.update_dr_i then .STATE_idle else .STATE_Rcrc
  | .STATE_Wready =>
    if word_count_zero s then .STATE_idle
    else if i.module_select_i && i.capture_dr_i then .STATE_Wwait
    else .STATE_Wready
  | .STATE_Wwait =>
    if i.update_dr_i then .STATE_idle
    else if i.module_select_i && s.data_register_i.getLsbD 63 then .STATE_Wburst
    else .STATE_Wwait
  | .STATE_Wburst =>
    if i.update_dr_i then .STATE_idle
    else if bit_count_max s then if word_count_zero s then .STATE_Wcrc else .STATE_Wburst
    else .STATE_Wburst
  | .STATE_Wstatus =>
    if i.update_dr_i then .STATE_idle
    else if word_count_zero s then .STATE_Wcrc
    else .STATE_Wburst
  | .STATE_Wcrc =>
    if i.update_dr_i then .STATE_idle
    else if bit_count_32 s then .STATE_Wmatch
    else .STATE_Wcrc
  | .STATE_Wmatch => if i.update_dr_i then .STATE_idle else .STATE_Wmatch

/-- More words are to be read than the one that comes next. -/
def read_more : Bool := !(decremented_word_count s==0#16) && !word_count_zero s

/-- Outputs of the control machine. -/
def control : Control :=
  match s.module_state with
  | .STATE_idle =>
    let burst := module_next_state s i != .STATE_idle
    { addr_sel := false
      word_ct_sel := false
      out_reg_shift_en := i.module_select_i && i.shift_dr_i
      out_reg_ld_en := i.module_select_i && i.capture_dr_i
      regsel_ld_en := i.module_select_i && module_cmd s && i.update_dr_i && intreg_instruction s
      intreg_ld_en := i.module_select_i && module_cmd s && i.update_dr_i && intreg_write s
      addr_ct_en := burst
      op_reg_en := burst
      bit_ct_rst := burst
      word_ct_en := burst
      crc_clr := burst }
  | .STATE_Rbegin => { biu_strobe := !word_count_zero s, addr_ct_en := !word_count_zero s }
  | .STATE_Rready => { }
  | .STATE_Rstatus =>
    let burst := module_next_state s i==.STATE_Rburst
    { tdo_output_sel := 0#2
      top_inhibit_o := true
      error_reg_en := burst
      out_reg_data_sel := !burst
      out_reg_ld_en := burst
      bit_ct_rst := burst
      word_ct_en := burst
      biu_strobe := burst && read_more s
      addr_ct_en := burst && read_more s }
  | .STATE_Rburst =>
    { out_reg_shift_en := true
      bit_ct_en := true
      crc_en := true
      top_inhibit_o := true
      error_reg_en := bit_count_max s
      out_reg_data_sel := !bit_count_max s
      out_reg_ld_en := bit_count_max s
      bit_ct_rst := bit_count_max s
      word_ct_en := bit_count_max s
      biu_strobe := bit_count_max s && read_more s
      addr_ct_en := bit_count_max s && read_more s }
  | .STATE_Rcrc => { tdo_output_sel := 3#2, crc_shift_en := true, top_inhibit_o := true }
  | .STATE_Wready => { }
  | .STATE_Wwait =>
    let burst := module_next_state s i==.STATE_Wburst
    { top_inhibit_o := true
      bit_ct_en := burst
      word_ct_en := burst
      crc_en := burst
      crc_in_sel := burst }
  | .STATE_Wburst =>
    { bit_ct_en := true
      crc_en := true
      crc_in_sel := true
      top_inhibit_o := true
      error_reg_en := bit_count_max s
      bit_ct_rst := bit_count_max s
      biu_strobe := bit_count_max s
      addr_ct_en := bit_count_max s
      word_ct_en := bit_count_max s }
  | .STATE_Wstatus =>
    { tdo_output_sel := 0#2
      error_reg_en := true
      biu_strobe := true
      word_ct_en := true
      bit_ct_rst := true
      addr_ct_en := true
      top_inhibit_o := true }
  | .STATE_Wcrc =>
    { bit_ct_en := true
      top_inhibit_o := true
      tdo_output_sel := if module_next_state s i=.STATE_Wmatch then 2#2 else 1#2 }
  | .STATE_Wmatch =>
    { tdo_output_sel := 2#2
      top_inhibit_o := true
      error_reg_en := module_next_state s i==.STATE_idle }

/-- Serial output. -/
def module_tdo_o : Bool :=
  let sel := (control s i).tdo_output_sel
  if sel=0#2 then i.biu_ready
  else if sel=1#2 then s.data_out_shift_reg.getLsbD 0
  else if sel=2#2 then crc_match s
  else s.crc.getLsbD 0

/-- Input of the checksum. -/
def crc_data_in : Bool :=
  if (control s i).crc_in_sel then i.tdi_i else s.data_out_shift_reg.getLsbD 0

/-- Parallel input of the output register. -/
def out_reg_data : BitVec 65 :=
  if (control s i).out_reg_data_sel then s.internal_reg_error.setWidth 65
  else i.data_from_biu.setWidth 65

/-- Next value of the error register. The bus unit itself reports no errors. -/
def next_reg_error : BitVec 33 :=
  let latched := s.address_counter++s.internal_reg_error.extractLsb' 0 1
  let error := s.internal_reg_error.getLsbD 0
  if (control s i).intreg_ld_en && reg_select_data s==DBG_LINT_INTREG_ERROR then
    if s.data_register_i.getLsbD 46 then setBit s.internal_reg_error 0 false
    else s.internal_reg_error
  else if (control s i).error_reg_en && !error then
    if !i.biu_ready then setBit s.internal_reg_error 0 true
    else if (control s i).biu_strobe then latched
    else s.internal_reg_error
  else if (control s i).biu_strobe && !error then latched
  else s.internal_reg_error

/-- One clock edge. -/
def step : State where
  data_register_i :=
    if i.debug_select_i && i.shift_dr_i then shiftIn s.data_register_i i.tdi_i
    else s.data_register_i
  address_counter :=
    if (control s i).addr_ct_en then
      if (control s i).addr_sel then incremented_address s else address_data_in s
    else s.address_counter
  bit_count :=
    if (control s i).bit_ct_rst then 0#6
    else if (control s i).bit_ct_en then s.bit_count+1#6
    else s.bit_count
  word_count :=
    if (control s i).word_ct_en then
      if (control s i).word_ct_sel then decremented_word_count s else count_data_in s
    else s.word_count
  operation := if (control s i).op_reg_en then operation_in s else s.operation
  data_out_shift_reg :=
    if (control s i).out_reg_ld_en then out_reg_data s i
    else if (control s i).out_reg_shift_en then s.data_out_shift_reg >>> 1
    else s.data_out_shift_reg
  internal_register_select :=
    if (control s i).regsel_ld_en then reg_select_data s else s.internal_register_select
  internal_reg_error := next_reg_error s i
  crc :=
    if (control s i).crc_clr then BitVec.allOnes 32
    else if (control s i).crc_en then new_crc s.crc (crc_data_in s i)
    else if (control s i).crc_shift_en then s.crc >>> 1
    else s.crc
  module_state := module_next_state s i

end Code

end Pulpissimo.AdvDbg.LintModule
