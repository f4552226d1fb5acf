import Pulpissimo.Cellift.FixGlobalImports

/-!
# Tokens of a Verilog text

A lexer goes through a text letter by letter and leaves out blanks and comments. Operators are
read by their letters. Directives are read like code up to the end of their line, which is a
token of its own.
-/

namespace Pulpissimo.Cellift.VerilogTokens

open Pulpissimo.Cellift.FixGlobalImports

/-- Tokens. -/
inductive Token
  | word (w : List Char)
  | sym (c : Char)
  /-- A letter of a string. -/
  | text (c : Char)
  /-- End of the line of a directive. -/
  | eol
  deriving DecidableEq

/-- What the lexer is in. -/
inductive Mode
  /-- Code, with the beginning of a word. -/
  | code (w : List Char)
  /-- Code behind a slash. -/
  | slash
  | line
  | block
  /-- A block comment behind a star. -/
  | star
  | string
  /-- A string behind a backslash. -/
  | escape
  /-- An escaped identifier, which goes up to a blank. -/
  | escaped (w : List Char)
  deriving DecidableEq

/-- State of the lexer. -/
structure Lexer where
  mode : Mode
  /-- In the line of a directive. -/
  directive : Bool
  deriving DecidableEq

/-- State at the beginning of a text. -/
def start : Lexer := ⟨.code [],false⟩

/-- Letters of identifiers. -/
def isIdent (c : Char) : Bool := isName c || c == '$'

/-- The end of a word. -/
def flush (w : List Char) : List Token := if w=[] then [] else [.word w]

/-- The end of a line. -/
def endLine (directive : Bool) : List Token := if directive then [.eol] else []

/-- One letter of code behind the beginning of a word. -/
def codeStep (w : List Char) (directive : Bool) (c : Char) : Lexer×List Token :=
  if isIdent c then (⟨.code (w++[c]),directive⟩,[])
  else if c = '\n' then (start,flush w++endLine directive)
  else if isSpace c then (⟨.code [],directive⟩,flush w)
  else if c = '/' then (⟨.slash,directive⟩,flush w)
  else if c = '"' then (⟨.string,directive⟩,flush w++[.text c])
  else if c = '\\' then (⟨.escaped [],directive⟩,flush w)
  else if c = '\x60' then (⟨.code [],true⟩,flush w++[.sym c])
  else (⟨.code [],directive⟩,flush w++[.sym c])

/-- One letter. -/
def step (q : Lexer) (c : Char) : Lexer×List Token :=
  match q.mode with
  | .code w => codeStep w q.directive c
  | .slash =>
    if c = '/' then (⟨.line,q.directive⟩,[])
    else if c = '*' then (⟨.block,q.directive⟩,[])
    else ((codeStep [] q.directive c).1,.sym '/'::(codeStep [] q.directive c).2)
  | .line => if c = '\n' then (start,endLine q.directive) else (q,[])
  | .block => (⟨if c = '*' then .star else .block,q.directive⟩,[])
  | .star =>
    (⟨if c = '/' then .code [] else if c = '*' then .star else .block,q.directive⟩,[])
  | .string =>
    if c = '\n' then (start,endLine q.directive)
    else
      (⟨if c = '"' then .code [] else if c = '\\' then .escape else .string,q.directive⟩,[.text c])
  | .escape => (⟨.string,q.directive⟩,[.text c])
  | .escaped w =>
    if c = '\n' then
      -- the line of a directive goes on behind a backslash
      if w=[] && q.directive then (⟨.code [],true⟩,[])
      else (start,.word ('\\'::w)::endLine q.directive)
    else if isSpace c then (⟨.code [],q.directive⟩,[.word ('\\'::w)])
    else (⟨.escaped (w++[c]),q.directive⟩,[])

/-- State behind a text. -/
def state : Lexer → List Char → Lexer
  | q,[] => q
  | q,c::t => state (step q c).1 t

/-- Tokens that are complete within a text. -/
def emit : Lexer → List Char → List Token
  | _,[] => []
  | q,c::t => (step q c).2++emit (step q c).1 t

/-- Tokens at the end of a text. -/
def finish (q : Lexer) : List Token :=
  (match q.mode with
    | .code w => flush w
    | .slash => [.sym '/']
    | .escaped w => [.word ('\\'::w)]
    | _ => [])++endLine q.directive

/-- Tokens from a state on. -/
def tokensFrom (q : Lexer) (s : List Char) : List Token := emit q s++finish (state q s)

/-- Tokens of a text. -/
def tokens (s : List Char) : List Token := tokensFrom start s

section Texts

variable (q : Lexer)

theorem state_append (x y : List Char) : state q (x++y)=state (state q x) y := by
  induction x generalizing q with
  | nil => rfl
  | cons c x ih => exact ih _

theorem emit_append (x y : List Char) : emit q (x++y)=emit q x++emit (state q x) y := by
  induction x generalizing q with
  | nil => rfl
  | cons c x ih => rw [List.cons_append,emit,emit,ih,List.append_assoc]; rfl

theorem tokensFrom_append (x y : List Char) :
    tokensFrom q (x++y)=emit q x++tokensFrom (state q x) y := by
  rw [tokensFrom,emit_append,state_append,List.append_assoc]
  rfl

theorem tokensFrom_cons (c : Char) (t : List Char) :
    tokensFrom q (c::t)=(step q c).2++tokensFrom (step q c).1 t :=
  tokensFrom_append q [c] t |>.trans (by rw [emit,emit,List.append_nil]; rfl)

end Texts

section Letters

theorem isName_toNat {c : Char} (hc : isName c=true) :
    97 ≤ c.toNat ∧ c.toNat ≤ 122 ∨ 65 ≤ c.toNat ∧ c.toNat ≤ 90 ∨
      48 ≤ c.toNat ∧ c.toNat ≤ 57 ∨ c.toNat=95 := by
  unfold isName at hc
  simp only [Bool.or_eq_true,Bool.and_eq_true,decide_eq_true_eq,beq_iff_eq] at hc
  rcases hc with ((⟨h1,h2⟩ | ⟨h1,h2⟩) | ⟨h1,h2⟩) | rfl
  · exact Or.inl ⟨h1,h2⟩
  · exact Or.inr (Or.inl ⟨h1,h2⟩)
  · exact Or.inr (Or.inr (Or.inl ⟨h1,h2⟩))
  · exact Or.inr (Or.inr (Or.inr rfl))

theorem isIdent_of_isName {c : Char} (hc : isName c=true) : isIdent c=true := by
  rw [isIdent,hc,Bool.true_or]

/-- No blank belongs to an identifier. -/
theorem isIdent_of_isSpace {c : Char} (hc : isSpace c=true) : isIdent c=false := by
  by_contra hident
  rw [Bool.not_eq_false,isIdent,Bool.or_eq_true] at hident
  have hnat : 97 ≤ c.toNat ∧ c.toNat ≤ 122 ∨ 65 ≤ c.toNat ∧ c.toNat ≤ 90 ∨
      48 ≤ c.toNat ∧ c.toNat ≤ 57 ∨ c.toNat=95 ∨ c.toNat=36 := by
    rcases hident with hname | hdollar
    · rcases isName_toNat hname with h | h | h | h
      · exact Or.inl h
      · exact Or.inr (Or.inl h)
      · exact Or.inr (Or.inr (Or.inl h))
      · exact Or.inr (Or.inr (Or.inr (Or.inl h)))
    · rw [beq_iff_eq.mp hdollar]
      decide
  unfold isSpace at hc
  simp only [Bool.or_eq_true,Bool.and_eq_true,decide_eq_true_eq,beq_iff_eq] at hc
  omega

/-- A blank in code ends a word. -/
theorem step_space {c : Char} (hc : isSpace c=true) (w : List Char) :
    step ⟨.code w,false⟩ c=(start,flush w) := by
  show codeStep w false c=_
  unfold codeStep
  rw [isIdent_of_isSpace hc,if_neg Bool.false_ne_true,hc]
  by_cases hnl : c = '\n'
  · rw [if_pos hnl,endLine,if_neg Bool.false_ne_true,List.append_nil]
  · rw [if_neg hnl,if_pos rfl]
    rfl

end Letters

section Words

/-- No letter of a text goes on with a word before it. -/
def Plain : List Char → Prop
  | [] => True
  | c::_ => isIdent c=false

instance Plain.decide : (r : List Char) → Decidable (Plain r)
  | [] => .isTrue trivial
  | c::_ => inferInstanceAs (Decidable (isIdent c=false))

theorem codeStep_plain {c : Char} (hc : isIdent c=false) (w : List Char) (directive : Bool) :
    codeStep w directive c=((codeStep [] directive c).1,flush w++(codeStep [] directive c).2) := by
  have hnil : flush []=[] := rfl
  unfold codeStep
  rw [hc,if_neg Bool.false_ne_true,if_neg Bool.false_ne_true,hnil]
  split_ifs <;> simp

/-- A word ends before such a text. -/
theorem tokensFrom_plain {r : List Char} (hr : Plain r) (w : List Char) :
    tokensFrom ⟨.code w,false⟩ r=flush w++tokensFrom start r := by
  cases r with
  | nil =>
    show [] ++(flush w++[])=flush w++([]++([]++[]))
    rw [List.nil_append,List.append_nil]
    exact (List.append_nil _).symm
  | cons c t =>
    have hc : isIdent c=false := hr
    have hstep : step ⟨.code w,false⟩ c=((step start c).1,flush w++(step start c).2) :=
      codeStep_plain hc w false
    rw [tokensFrom_cons,tokensFrom_cons,hstep,List.append_assoc]

/-- Letters of a name go on with a word. -/
theorem read_name {x : List Char} (hx : ∀ c ∈ x, isName c=true) (w : List Char) :
    state ⟨.code w,false⟩ x=⟨.code (w++x),false⟩ ∧ emit ⟨.code w,false⟩ x=[] := by
  induction x generalizing w with
  | nil => exact ⟨by rw [List.append_nil]; rfl,rfl⟩
  | cons c x ih =>
    rcases List.forall_mem_cons.mp hx with ⟨hc,hx'⟩
    have hstep : step ⟨.code w,false⟩ c=(⟨.code (w++[c]),false⟩,[]) :=
      if_pos (isIdent_of_isName hc)
    have hrest := ih hx' (w++[c])
    rw [state,emit,hstep]
    refine ⟨hrest.1.trans ?_,hrest.2⟩
    rw [List.append_assoc]
    rfl

/-- Blanks leave nothing behind. -/
theorem read_blank {w : List Char} (hw : Blank w) : state start w=start ∧ emit start w=[] := by
  induction w with
  | nil => exact ⟨rfl,rfl⟩
  | cons c w ih =>
    rcases List.forall_mem_cons.mp hw with ⟨hc,hw'⟩
    have hstep : step start c=(start,[]) := step_space hc []
    rw [state,emit,hstep]
    exact ih hw'

/-- Blanks behind a word end it. -/
theorem read_blank_word {w : List Char} (hw : Blank w) (hne : w≠[]) (v : List Char) :
    state ⟨.code v,false⟩ w=start ∧ emit ⟨.code v,false⟩ w=flush v := by
  cases w with
  | nil => exact absurd rfl hne
  | cons c w =>
    rcases List.forall_mem_cons.mp hw with ⟨hc,hw'⟩
    have hrest := read_blank hw'
    rw [state,emit,step_space hc]
    exact ⟨hrest.1,by rw [hrest.2,List.append_nil]⟩

end Words

section Lines

/-- Whether a list of tokens ends in the line of a directive. -/
def inLine : Bool → List Token → Bool
  | d,[] => d
  | _,.eol::l => inLine false l
  | d,.sym c::l => inLine (d || c == '\x60') l
  | d,.word _::l => inLine d l
  | d,.text _::l => inLine d l

theorem inLine_append (d : Bool) (k l : List Token) : inLine d (k++l)=inLine (inLine d k) l := by
  induction k generalizing d with
  | nil => rfl
  | cons x k ih => cases x <;> exact ih _

theorem inLine_flush (d : Bool) (w : List Char) (l : List Token) :
    inLine d (flush w++l)=inLine d l := by
  unfold flush
  split_ifs <;> rfl

theorem inLine_endLine (d : Bool) : inLine d (endLine d)=false := by
  cases d <;> rfl

theorem inLine_codeStep (w : List Char) (d : Bool) (c : Char) :
    inLine d (codeStep w d c).2=(codeStep w d c).1.directive := by
  have hflush := inLine_flush d w []
  rw [List.append_nil] at hflush
  unfold codeStep
  split_ifs with _ _ _ _ _ _ hback
  · rfl
  · rw [inLine_flush]
    exact inLine_endLine d
  · exact hflush
  · exact hflush
  · rw [inLine_flush]
    rfl
  · exact hflush
  · rw [inLine_flush,hback]
    exact Bool.or_true d
  · rw [inLine_flush]
    show (d || c == '\x60')=d
    rw [beq_eq_false_iff_ne.mpr hback,Bool.or_false]

/-- The lexer is in the line of a directive as its tokens tell. -/
theorem inLine_step (q : Lexer) (c : Char) :
    inLine q.directive (step q c).2=(step q c).1.directive := by
  unfold step
  split
  · exact inLine_codeStep _ _ c
  · split_ifs
    · rfl
    · rfl
    · show inLine (q.directive || '/' == '\x60') _=_
      rw [show ('/' == '\x60')=false from rfl,Bool.or_false]
      exact inLine_codeStep _ _ c
  · split_ifs
    · exact inLine_endLine _
    · rfl
  · rfl
  · rfl
  · split_ifs
    · exact inLine_endLine _
    · rfl
    · rfl
    · rfl
  · rfl
  · split_ifs with _ hon
    · exact (Bool.and_eq_true _ _ ▸ hon).2
    · exact inLine_endLine _
    · rfl
    · rfl

/-- Over a text. -/
theorem inLine_emit (q : Lexer) (x : List Char) :
    inLine q.directive (emit q x)=(state q x).directive := by
  induction x generalizing q with
  | nil => rfl
  | cons c x ih =>
    rw [emit,inLine_append,inLine_step]
    exact ih _

theorem inLine_true {l : List Token} (hl : .eol ∉ l) : inLine true l=true := by
  induction l with
  | nil => rfl
  | cons x l ih =>
    rcases List.ne_and_not_mem_of_not_mem_cons hl with ⟨hx,hrest⟩
    cases x with
    | eol => exact absurd rfl hx
    | word | sym | text => exact ih hrest

theorem eol_notMem_flush (w : List Char) : .eol ∉ flush w := by
  unfold flush
  split_ifs
  · exact List.not_mem_nil
  · exact fun h => absurd (List.mem_singleton.mp h) nofun

theorem eol_notMem_codeStep {c : Char} (hc : c ≠ '\n') (w : List Char) (d : Bool) :
    .eol ∉ (codeStep w d c).2 := by
  have hflush := eol_notMem_flush w
  have hpush : ∀ x : Token, Token.eol≠x → .eol ∉ flush w++[x] := fun x hx h =>
    (List.mem_append.mp h).elim hflush fun h => hx (List.mem_singleton.mp h)
  unfold codeStep
  rw [if_neg hc]
  split_ifs
  · exact List.not_mem_nil
  · exact hflush
  · exact hflush
  · exact hpush _ nofun
  · exact hflush
  · exact hpush _ nofun
  · exact hpush _ nofun

/-- Only a newline ends the line of a directive. -/
theorem eol_notMem_step (q : Lexer) {c : Char} (hc : c ≠ '\n') : .eol ∉ (step q c).2 := by
  unfold step
  split
  · exact eol_notMem_codeStep hc _ _
  · split_ifs
    · exact List.not_mem_nil
    · exact List.not_mem_nil
    · exact List.not_mem_cons_of_ne_of_not_mem nofun (eol_notMem_codeStep hc _ _)
  · rw [if_neg hc]
    exact List.not_mem_nil
  · exact List.not_mem_nil
  · exact List.not_mem_nil
  · rw [if_neg hc]
    exact fun h => absurd (List.mem_singleton.mp h) nofun
  · exact fun h => absurd (List.mem_singleton.mp h) nofun
  · rw [if_neg hc]
    split_ifs
    · exact fun h => absurd (List.mem_singleton.mp h) nofun
    · exact List.not_mem_nil

/-- A newline behind which code begins anew ends the line. -/
theorem step_newline {q : Lexer} (h : (step q '\n').1=start) :
    ∃ ts, .eol ∉ ts ∧ (step q '\n').2=ts++endLine q.directive := by
  rcases q with ⟨mode,d⟩
  cases mode with
  | code w => exact ⟨flush w,eol_notMem_flush w,rfl⟩
  | slash => exact ⟨[.sym '/'],fun h => absurd (List.mem_singleton.mp h) nofun,rfl⟩
  | line => exact ⟨[],List.not_mem_nil,rfl⟩
  | string => exact ⟨[],List.not_mem_nil,rfl⟩
  | block => exact absurd (congrArg Lexer.mode h) nofun
  | star => exact absurd (congrArg Lexer.mode h) nofun
  | escape => exact absurd (congrArg Lexer.mode h) nofun
  | escaped w =>
    by_cases hon : (w=[] && d)=true
    · have hstep : step ⟨.escaped w,d⟩ '\n'=(⟨.code [],true⟩,[]) := if_pos hon
      rw [hstep] at h
      exact absurd (congrArg Lexer.directive h) nofun
    · have hstep : step ⟨.escaped w,d⟩ '\n'=(start,.word ('\\'::w)::endLine d) := if_neg hon
      rw [hstep]
      exact ⟨[.word ('\\'::w)],fun h => absurd (List.mem_singleton.mp h) nofun,rfl⟩

/-- The rest of the line of a directive. -/
theorem read_line {q : Lexer} {body : List Char} (hq : q.directive=true) (hbody : '\n' ∉ body)
    (hend : state q (body++['\n'])=start) :
    ∃ ts, .eol ∉ ts ∧ emit q (body++['\n'])=ts++[.eol] := by
  induction body generalizing q with
  | nil =>
    rcases step_newline (q := q) hend with ⟨ts,hts,hstep⟩
    refine ⟨ts,hts,?_⟩
    rw [List.nil_append,emit,emit,List.append_nil,hstep,hq]
    rfl
  | cons c body ih =>
    rcases List.ne_and_not_mem_of_not_mem_cons hbody with ⟨hc,hbody'⟩
    have hnot := eol_notMem_step q (Ne.symm hc)
    have hin : (step q c).1.directive=true := by
      rw [←inLine_step,hq]
      exact inLine_true hnot
    rcases ih hin hbody' hend with ⟨ts,hts,hemit⟩
    refine ⟨(step q c).2++ts,fun h => (List.mem_append.mp h).elim hnot hts,?_⟩
    rw [List.cons_append,emit,hemit,List.append_assoc]

end Lines

end Pulpissimo.Cellift.VerilogTokens
