import Mathlib.Logic.Relation
import Pulpissimo.Cellift.VerilogTokens

/-!
# What the pass does to the tokens of a text

An import before a header moves behind it, over directives at most. A text is clean where the
newline that is taken away with an import joins nothing, and where every import before a header
begins a line.
-/

namespace Pulpissimo.Cellift.ImportMoves

open Pulpissimo.Backtrack
open Pulpissimo.Cellift.FixGlobalImports
open Pulpissimo.Cellift.VerilogTokens

section Purpose

/-- Tokens of `import P::*;`. -/
def imp (n : List Char) : List Token :=
  [.word "import".toList,.word n,.sym ':',.sym ':',.sym '*',.sym ';']

/-- Lines of directives. -/
inductive Directives : List Token → Prop
  | nil : Directives []
  | line {ts d : List Token} (hts : .eol ∉ ts) (hd : Directives d) :
    Directives (.sym '\x60'::(ts++.eol::d))

/-- A name, and no word for a lifetime. -/
def Named (n : List Char) : Prop := n≠[] ∧ n≠"automatic".toList ∧ n≠"static".toList

/-- Headers. -/
inductive Header : List Token → Prop
  | module {n : List Char} (hn : Named n) : Header [.word "module".toList,.word n]
  | interface {n : List Char} (hn : Named n) : Header [.word "interface".toList,.word n]
  | package {n : List Char} (hn : Named n) : Header [.word "package".toList,.word n,.sym ';']

/-- An import outside of directives moves behind the header that follows. -/
inductive Step (d : Bool) : List Token → List Token → Prop
  | move {n : List Char} {before lines header after : List Token} (hn : n≠[])
    (hbefore : inLine d before=false) (hlines : Directives lines) (hheader : Header header) :
    Step d (before++(imp n++(lines++(header++after)))) (before++(lines++(header++(imp n++after))))

/-- Any number of moves. -/
def Moves (d : Bool) : List Token → List Token → Prop := Relation.ReflTransGen (Step d)

/-- Nothing is lost and nothing is made. -/
theorem Moves.perm {d : Bool} {k l : List Token} (h : Moves d k l) : k.Perm l := by
  induction h with
  | refl => exact List.Perm.refl k
  | tail _ hstep ih =>
    refine ih.trans ?_
    cases hstep with
    | @move n before lines header after =>
      refine List.Perm.append_left before ?_
      rw [←List.append_assoc lines,←List.append_assoc lines]
      exact List.perm_append_comm_assoc _ _ _

/-- Behind other tokens. -/
theorem Moves.append_left {d e : Bool} {k l : List Token} (h : Moves e k l) {x : List Token}
    (hx : inLine d x=e) : Moves d (x++k) (x++l) := by
  induction h with
  | refl => exact .refl
  | tail _ hstep ih =>
    refine ih.tail ?_
    cases hstep with
    | @move n before lines header after hn hbefore hlines hheader =>
      rw [←List.append_assoc x before,←List.append_assoc x before]
      refine .move hn ?_ hlines hheader
      rw [inLine_append,hx]
      exact hbefore

/-- An import stands in code right before a header. -/
def Stands (header : Regex Char) (s : List Char) : Prop :=
  ∃ i g h r, s=i++(g++(h++r)) ∧ item.Matches i ∧ between.Matches g ∧ header.Matches h

/-- Such an import is left in a text. -/
def Left (header : Regex Char) (s : List Char) : Prop :=
  ∃ a b, s=a++b ∧ state start a=start ∧ Stands header b

end Purpose

section Conditions

/-- In a gap code begins anew behind each newline. -/
def Quiet : Lexer → List Char → Prop
  | _,[] => True
  | q,c::t => (c = '\n' → (step q c).1=start) ∧ Quiet (step q c).1 t

instance Quiet.decide : (q : Lexer) → (s : List Char) → Decidable (Quiet q s)
  | _,[] => .isTrue trivial
  | q,c::t =>
    have := Quiet.decide (step q c).1 t
    inferInstanceAs (Decidable ((c = '\n' → (step q c).1=start) ∧ Quiet (step q c).1 t))

/-- Words for a lifetime. -/
def lifetimes : List (List Char) := ["automatic".toList,"static".toList]

/-- A match that moves an import as it should. Before it code begins anew behind a newline, and
what comes instead of the newline is read as it was behind the newline. -/
structure Good (q : Lexer) (m : Found) : Prop where
  opens : (step q '\n').1=start
  quiet : Quiet start m.between
  joins : emit q (m.between++m.header)=(step q '\n').2++emit start (m.between++m.header)
  same : state q (m.between++m.header)=state start (m.between++m.header)
  ends : Plain m.rest ∨ state start m.header=start
  named : ∀ n ∈ lifetimes, .word n ∉ tokensFrom start m.header

instance (q : Lexer) (m : Found) : Decidable (Good q m) :=
  decidable_of_iff ((step q '\n').1=start ∧ Quiet start m.between ∧
    emit q (m.between++m.header)=(step q '\n').2++emit start (m.between++m.header) ∧
    state q (m.between++m.header)=state start (m.between++m.header) ∧
    (Plain m.rest ∨ state start m.header=start) ∧
    ∀ n ∈ lifetimes, .word n ∉ tokensFrom start m.header)
    ⟨fun ⟨h1,h2,h3,h4,h5,h6⟩ => ⟨h1,h2,h3,h4,h5,h6⟩,
      fun ⟨h1,h2,h3,h4,h5,h6⟩ => ⟨h1,h2,h3,h4,h5,h6⟩⟩

/-- What a match takes. -/
def taken (s : List Char) (m : Found) : List Char := s.take (s.length-m.rest.length)

/-- What comes instead. -/
def given (separator : Char) (m : Found) : List Char :=
  m.between++m.header++separator::m.item

/-- A match that is read as what comes instead, as in a block comment. -/
def Idle (separator : Char) (q : Lexer) (s : List Char) (m : Found) : Prop :=
  emit q (taken s m)=emit q (given separator m) ∧ state q (taken s m)=state q (given separator m)

instance (separator : Char) (q : Lexer) (s : List Char) (m : Found) :
    Decidable (Idle separator q s m) :=
  inferInstanceAs (Decidable (_ ∧ _))

/-- All matches of a round move an import as they should, or are read as what comes instead. -/
def clean (header : Regex Char) (separator : Char) : ℕ → Lexer → List Char → Bool
  | 0,_,_ => true
  | n+1,q,s =>
    match search header s with
    | some m =>
      decide (Good q m) && clean header separator n start m.rest ||
        decide (Idle separator q s m) &&
          clean header separator n (state q (taken s m)) m.rest
    | none =>
      match s with
      | [] => true
      | c::t => clean header separator n (step q c).1 t

/-- A text that an import right before a header begins. -/
def starts (header : Regex Char) (s : List Char) : Bool :=
  (item.first s fun _ s => between.first s fun _ s => header.first s fun _ _ => some ()).isSome

/-- Every import right before a header begins a line behind another one. -/
def seen (header : Regex Char) : Lexer → Bool → List Char → Bool
  | _,_,[] => true
  | q,fresh,c::t =>
    (fresh || !(decide (q=start) && starts header (c::t))) &&
      seen header (step q c).1 (c == '\n' || fresh && isSpace c) t

/-- A text that a round of the first pattern treats well. -/
def cleanModules (s : List Char) : Bool := clean moduleHeader ' ' s.length start s

/-- A text that a round of the second pattern treats well. The first pattern is done with it, and
no import that either should move is out of their reach. -/
def cleanPackages (s : List Char) : Bool :=
  clean packageHeader '\n' s.length start s && decide (fixModules s=s) &&
    seen moduleHeader start false s && seen packageHeader start false s

/-- Texts of the first loop. -/
def InModules (s u : List Char) : Prop := ∃ n, u=fixModules^[n] s

/-- Texts of the second loop. -/
def InPackages (s u : List Char) : Prop :=
  ∃ v, InModules s v ∧ fixModules v=v ∧ ∃ n, u=fixPackages^[n] v

/-- A run that only meets such texts. -/
structure CleanRun (s : List Char) : Prop where
  modules : ∀ u, InModules s u → cleanModules u=true
  packages : ∀ u, InPackages s u → cleanPackages u=true

end Conditions

section Reading

theorem Directives.append {d e : List Token} (hd : Directives d) (he : Directives e) :
    Directives (d++e) := by
  induction hd with
  | nil => exact he
  | line hts _ ih =>
    rw [List.cons_append,List.append_assoc]
    exact .line hts ih

theorem Directives.inLine {d : List Token} (hd : Directives d) : inLine false d=false := by
  induction hd with
  | nil => rfl
  | @line ts d hts _ ih =>
    show VerilogTokens.inLine true (ts++.eol::d)=false
    rw [inLine_append,inLine_true hts]
    exact ih

theorem Header.inLine {h : List Token} (hh : Header h) : inLine false h=false := by
  cases hh <;> rfl

theorem Quiet.append {q : Lexer} {x y : List Char} (h : Quiet q (x++y)) :
    Quiet q x ∧ Quiet (state q x) y := by
  induction x generalizing q with
  | nil => exact ⟨trivial,h⟩
  | cons c x ih => exact ⟨⟨h.1,(ih h.2).1⟩,(ih h.2).2⟩

/-- An import. -/
theorem read_item {i : List Char} (hi : item.Matches i) :
    ∃ n, n≠[] ∧ state start i=start ∧ emit start i=imp n := by
  rcases matches_item hi with ⟨n,hne,hn,rfl⟩
  have hname := read_name hn []
  have hword : state start "import ".toList=start ∧
      emit start "import ".toList=[.word "import".toList] := by decide
  have hend : state ⟨.code n,false⟩ "::*;".toList=start ∧
      emit ⟨.code n,false⟩ "::*;".toList=flush n++[.sym ':',.sym ':',.sym '*',.sym ';'] :=
    ⟨rfl,List.append_assoc (flush n) [.sym ':'] [.sym ':',.sym '*',.sym ';']⟩
  have hflush : flush n=[.word n] := if_neg hne
  refine ⟨n,hne,?_,?_⟩
  · rw [state_append,hword.1,state_append]
    exact (congrArg (state · "::*;".toList) hname.1).trans hend.1
  · rw [emit_append,hword.2,hword.1,emit_append]
    show _++(emit ⟨.code [],false⟩ n++emit (state ⟨.code [],false⟩ n) "::*;".toList)=_
    rw [hname.2,hname.1,List.nil_append,List.nil_append,hend.2,hflush]
    rfl

/-- A gap. -/
theorem read_gap {g : List Char} (hg : Gap g) (hquiet : Quiet start g) :
    state start g=start ∧ Directives (emit start g) := by
  induction hg with
  | nil => exact ⟨rfl,.nil⟩
  | @cons x g hx hg ih =>
    rcases hquiet.append with ⟨hhead,htail⟩
    have hread : state start x=start ∧ Directives (emit start x) := by
      cases hx with
      | @blank c hc =>
        have hblank := read_blank (w := [c]) (List.forall_mem_singleton.mpr hc)
        exact ⟨hblank.1,hblank.2 ▸ .nil⟩
      | @comment body hbody =>
        have hline : ∀ b : List Char, '\n' ∉ b → state ⟨.line,false⟩ (b++['\n'])=start ∧
            emit ⟨.line,false⟩ (b++['\n'])=[] := by
          intro b hb
          induction b with
          | nil => exact ⟨rfl,rfl⟩
          | cons c b ih =>
            rcases List.ne_and_not_mem_of_not_mem_cons hb with ⟨hc,hb'⟩
            have hstep : step ⟨.line,false⟩ c=(⟨.line,false⟩,[]) := if_neg (Ne.symm hc)
            rw [List.cons_append,state,emit,hstep]
            exact ih hb'
        exact ⟨(hline body hbody).1,(hline body hbody).2.symm ▸ .nil⟩
      | @directive body hbody =>
        have hend : state ⟨.code [],true⟩ (body++['\n'])=start := by
          have hlast : Quiet (state ⟨.code [],true⟩ body) ['\n'] :=
            (Quiet.append (q := ⟨.code [],true⟩) hhead.2).2
          rw [state_append]
          exact hlast.1 rfl
        rcases read_line rfl hbody hend with ⟨ts,hts,hemit⟩
        refine ⟨hend,?_⟩
        show Directives (.sym '\x60'::emit ⟨.code [],true⟩ (body++['\n']))
        rw [hemit]
        exact .line hts .nil
    rw [hread.1] at htail
    rw [state_append,emit_append,hread.1]
    exact ⟨(ih htail).1,hread.2.append (ih htail).2⟩

theorem matches_name {x : List Char} (h : name.Matches x) : ∃ w n, w≠[] ∧ Blank w ∧ n≠[] ∧
    (∀ c ∈ n, isName c=true) ∧ x=w++n := by
  rcases h with ⟨w,n,⟨y,z,hy,hz,rfl⟩,hn,rfl⟩
  have hone : ∀ y, (Regex.alt (.cls isSpace) newline).Matches y → Blank y ∧ y≠[] := by
    rintro y (⟨c,hc,rfl⟩ | ⟨c,hc,rfl⟩)
    · exact ⟨List.forall_mem_singleton.mpr hc,List.cons_ne_nil _ _⟩
    · rw [beq_iff_eq.mp hc]
      exact ⟨List.forall_mem_singleton.mpr rfl,List.cons_ne_nil _ _⟩
  have hall : Blank z := by
    induction hz with
    | nil => exact fun c hc => absurd hc List.not_mem_nil
    | cons _ hx _ ih => exact List.forall_mem_append.mpr ⟨(hone _ hx).1,ih⟩
  refine ⟨y++z,n,?_,List.forall_mem_append.mpr ⟨(hone y hy).1,hall⟩,(matches_plus hn).1,
    (matches_plus hn).2,rfl⟩
  exact fun hnil => (hone y hy).2 (List.append_eq_nil_iff.mp hnil).1

/-- A keyword and a name. -/
theorem read_named {k w n : List Char} (hk : k≠[]) (hkey : k.all isName=true) (hw : w≠[])
    (hblank : Blank w) (hn : ∀ c ∈ n, isName c=true) :
    state start (k++(w++n))=⟨.code n,false⟩ ∧ emit start (k++(w++n))=[.word k] := by
  have hword := read_name (List.all_eq_true.mp hkey) []
  have hgap := read_blank_word hblank hw k
  have hname := read_name hn []
  have hflush : flush k=[.word k] := if_neg hk
  rw [start,state_append,emit_append,hword.1,hword.2,List.nil_append,state_append,emit_append,
    List.nil_append,hgap.1,hgap.2,hflush,start,hname.1,hname.2]
  exact ⟨rfl,rfl⟩

/-- A header, up to the end of its name if nothing ends it. -/
theorem read_header {h : List Char} (hh : moduleHeader.Matches h ∨ packageHeader.Matches h)
    (hnamed : ∀ n ∈ lifetimes, .word n ∉ tokensFrom start h) :
    ∃ w, state start h=⟨.code w,false⟩ ∧ Header (emit start h++flush w) := by
  have hlife : ∀ {n : List Char}, n≠[] → .word n ∈ tokensFrom start h → Named n :=
    fun hne hmem => ⟨hne,fun heq => hnamed _ (List.mem_cons_self) (heq ▸ hmem),
      fun heq => hnamed _ (List.mem_cons_of_mem _ List.mem_cons_self) (heq ▸ hmem)⟩
  rcases hh with ⟨k,x,hk,hx,rfl⟩ | ⟨k,x,hk,⟨y,z,hy,⟨v,e,hv,he,rfl⟩,rfl⟩,rfl⟩
  · rcases matches_name hx with ⟨w,n,hw,hblank,hne,hn,rfl⟩
    have hflush : flush n=[.word n] := if_neg hne
    have hword : k="module".toList ∨ k="interface".toList := hk
    have hkey : k≠[] ∧ k.all isName=true := by
      rcases hword with rfl | rfl <;> decide
    have hread := read_named hkey.1 hkey.2 hw hblank hn
    have hmem : .word n ∈ tokensFrom start (k++(w++n)) := by
      rw [tokensFrom,hread.1]
      refine List.mem_append_right _ (List.mem_append_left _ ?_)
      show _ ∈ flush n
      rw [hflush]
      exact List.mem_singleton_self _
    refine ⟨n,hread.1,?_⟩
    rw [hread.2,hflush]
    rcases hword with rfl | rfl
    · exact .module (hlife hne hmem)
    · exact .interface (hlife hne hmem)
  · rcases matches_name hy with ⟨w,n,hw,hblank,hne,hn,rfl⟩
    have hflush : flush n=[.word n] := if_neg hne
    change k="package".toList at hk
    change e=[';'] at he
    have hread := read_named (k := k) (by rw [hk]; decide) (by rw [hk]; decide) hw hblank hn
    have hsemi : state ⟨.code n,false⟩ (v++[';'])=start ∧
        emit ⟨.code n,false⟩ (v++[';'])=[.word n,.sym ';'] := by
      by_cases hv0 : v=[]
      · rw [hv0,←List.singleton_append (x := Token.word n),←hflush]
        exact ⟨rfl,List.append_nil _⟩
      · have hgap := read_blank_word (repeats_cls.mp hv) hv0 n
        rw [state_append,emit_append,hgap.1,hgap.2,hflush]
        exact ⟨rfl,rfl⟩
    have hwhole : k++(w++n++(v++e))=k++(w++n)++(v++[';']) := by
      rw [he,List.append_assoc k]
    rw [hwhole] at hlife ⊢
    have hstate : state start (k++(w++n)++(v++[';']))=start := by
      rw [state_append,hread.1,hsemi.1]
    have hemit : emit start (k++(w++n)++(v++[';']))=[.word k,.word n,.sym ';'] := by
      rw [emit_append,hread.1,hread.2,hsemi.2]
      rfl
    refine ⟨[],hstate,?_⟩
    rw [hemit,hk]
    refine .package (hlife hne ?_)
    rw [tokensFrom,hemit]
    exact List.mem_append_left _ (List.mem_cons_of_mem _ List.mem_cons_self)

end Reading

section Rounds

variable {header : Regex Char} {separator : Char}
  (hheader : header=moduleHeader ∨ header=packageHeader) (hseparator : isSpace separator=true)

include hheader hseparator in
/-- A good match moves an import. -/
theorem Good.moves {q : Lexer} {s r : List Char} {m : Found} (hgood : Good q m)
    (hm : search header s=some m) (hr : Moves false (tokensFrom start m.rest) (tokensFrom start r)) :
    Moves q.directive (tokensFrom q s) (tokensFrom q (given separator m++r)) := by
  rcases search_sound hm with ⟨w,hw,hs,hi,hg,hh⟩
  rcases read_item hi with ⟨n,hn,hitem,hitem'⟩
  rcases read_gap hg hgood.quiet with ⟨hgap,hlines⟩
  have hkind : moduleHeader.Matches m.header ∨ packageHeader.Matches m.header := by
    rcases hheader with rfl | rfl
    · exact Or.inl hh
    · exact Or.inr hh
  rcases read_header hkind hgood.named with ⟨v,hend,hhead⟩
  have hblank := read_blank hw
  -- the name of the header ends before what follows
  have hends : tokensFrom ⟨.code v,false⟩ m.rest=flush v++tokensFrom start m.rest := by
    rcases hgood.ends with hplain | hstart
    · exact tokensFrom_plain hplain v
    · rw [hend] at hstart
      have hv : v=[] := Mode.code.inj (congrArg Lexer.mode hstart)
      rw [hv]
      rfl
  have hbefore : tokensFrom q s=(step q '\n').2++(imp n++(emit start m.between++
      ((emit start m.header++flush v)++tokensFrom start m.rest))) := by
    rw [hs,List.cons_append,tokensFrom_cons,hgood.opens,tokensFrom_append,hblank.1,hblank.2,
      List.nil_append,tokensFrom_append,hitem,hitem',tokensFrom_append,hgap,tokensFrom_append,hend,
      hends,List.append_assoc]
  have hafter : tokensFrom q (given separator m++r)=(step q '\n').2++(emit start m.between++
      ((emit start m.header++flush v)++(imp n++tokensFrom start r))) := by
    rw [given,List.append_assoc,tokensFrom_append,hgood.joins,hgood.same,state_append,hgap,hend,
      List.cons_append,tokensFrom_cons,step_space hseparator,tokensFrom_append,hitem,hitem',
      emit_append,hgap]
    simp only [List.append_assoc]
  have hline : VerilogTokens.inLine q.directive (step q '\n').2=false := by
    rw [inLine_step,hgood.opens]
    rfl
  rw [hbefore,hafter]
  refine .tail ?_ (.move hn hline hlines hhead)
  refine Moves.append_left ?_ hline
  refine Moves.append_left (e := false) ?_ rfl
  refine Moves.append_left ?_ hlines.inLine
  exact Moves.append_left hr hhead.inLine

include hheader hseparator in
/-- A clean round moves imports. -/
theorem clean_moves {n : ℕ} {q : Lexer} {s : List Char} (h : clean header separator n q s=true) :
    Moves q.directive (tokensFrom q s) (tokensFrom q
      (substitute (fun s => (search header s).map fun m => (given separator m,m.rest)) n s)) := by
  induction n generalizing q s with
  | zero => exact .refl
  | succ n ih =>
    unfold substitute
    unfold clean at h
    cases hm : search header s with
    | some m =>
      rw [hm] at h
      rcases (Bool.or_eq_true _ _).mp h with h | h
      · rcases (Bool.and_eq_true _ _).mp h with ⟨hgood,hrest⟩
        exact (of_decide_eq_true hgood).moves hheader hseparator hm (ih hrest)
      · rcases (Bool.and_eq_true _ _).mp h with ⟨hidle,hrest⟩
        rcases of_decide_eq_true hidle with ⟨hsame,hstate⟩
        have htaken : s=taken s m++m.rest := by
          rcases search_sound hm with ⟨w,-,hs,-⟩
          have hsplit : s=('\n'::w++(m.item++(m.between++m.header)))++m.rest := by
            simpa only [List.append_assoc] using hs
          have hlen := congrArg List.length hsplit
          rw [List.length_append] at hlen
          have htake : taken s m = '\n'::w++(m.item++(m.between++m.header)) := by
            rw [taken,hlen,Nat.add_sub_cancel,hsplit,List.take_left]
          rw [htake]
          exact hsplit
        have htokens : tokensFrom q s=emit q (given separator m)++
            tokensFrom (state q (taken s m)) m.rest := by
          rw [←hsame,←tokensFrom_append,←htaken]
        rw [htokens]
        show Moves _ _ (tokensFrom q (given separator m++_))
        rw [tokensFrom_append,←hstate]
        refine Moves.append_left (ih hrest) ?_
        rw [inLine_emit,hstate]
    | none =>
      rw [hm] at h
      cases s with
      | nil => exact .refl
      | cons c t =>
        show Moves _ _ (tokensFrom q (c::_))
        rw [tokensFrom_cons,tokensFrom_cons]
        exact Moves.append_left (ih h) (inLine_step q c)

end Rounds

section Leftovers

variable {header : Regex Char}

theorem starts_of_stands {s : List Char} (h : Stands header s) : starts header s=true := by
  rcases h with ⟨i,g,h,r,rfl,hi,hg,hh⟩
  exact first_complete hi (first_complete hg (first_complete hh rfl))

/-- The pattern finds an import at the beginning of a line. -/
theorem search_of_stands {w s : List Char} (hw : Blank w) (h : Stands header s) :
    (search header ('\n'::w++s)).isSome=true := by
  rcases h with ⟨i,g,h,r,rfl,hi,hg,hh⟩
  exact first_complete (lead_matches hw)
    (first_complete hi (first_complete hg (first_complete hh rfl)))

/-- Whether a text ends at the beginning of a line. -/
def freshBehind : Bool → List Char → Bool
  | fresh,[] => fresh
  | fresh,c::t => freshBehind (c == '\n' || fresh && isSpace c) t

theorem freshBehind_spec {fresh : Bool} {a : List Char} (h : freshBehind fresh a=true) :
    fresh=true ∧ Blank a ∨ ∃ x w, a=x ++ '\n'::w ∧ Blank w := by
  induction a generalizing fresh with
  | nil => exact Or.inl ⟨h,fun c hc => absurd hc List.not_mem_nil⟩
  | cons c t ih =>
    rcases ih h with ⟨hnext,ht⟩ | ⟨x,w,hx,hw⟩
    · rcases (Bool.or_eq_true _ _).mp hnext with hc | hc
      · exact Or.inr ⟨[],t,by rw [beq_iff_eq.mp hc]; rfl,ht⟩
      · rcases (Bool.and_eq_true _ _).mp hc with ⟨hfresh,hspace⟩
        exact Or.inl ⟨hfresh,List.forall_mem_cons.mpr ⟨hspace,ht⟩⟩
    · exact Or.inr ⟨c::x,w,by rw [hx]; rfl,hw⟩

theorem fresh_of_seen {q : Lexer} {fresh : Bool} {a b : List Char}
    (h : seen header q fresh (a++b)=true) (hq : state q a=start) (hb : Stands header b) :
    freshBehind fresh a=true := by
  induction a generalizing q fresh with
  | nil =>
    cases b with
    | nil =>
      rcases hb with ⟨i,g,h,r,heq,hi,-⟩
      rcases matches_item hi with ⟨n,-,-,rfl⟩
      exact absurd heq nofun
    | cons c t =>
      have hhead := ((Bool.and_eq_true _ _).mp h).1
      have hstart : q=start := hq
      rw [decide_eq_true hstart,starts_of_stands hb,Bool.true_and,Bool.not_true,
        Bool.or_false] at hhead
      exact hhead
  | cons c a ih => exact ih ((Bool.and_eq_true _ _).mp h).2 hq

/-- Where the pattern finds nothing, none of the imports that it can see is left. -/
theorem not_left {s : List Char} (hseen : seen header start false s=true)
    (hnone : ∀ a b, s=a++b → b≠[] → search header b=none) : ¬Left header s := by
  rintro ⟨a,b,rfl,hstate,hb⟩
  rcases freshBehind_spec (fresh_of_seen hseen hstate hb) with ⟨hfalse,-⟩ | ⟨x,w,rfl,hw⟩
  · exact absurd hfalse Bool.false_ne_true
  · have hfound := search_of_stands hw hb
    rw [hnone x ('\n'::w++b) (List.append_assoc _ _ _) (List.cons_ne_nil _ _)] at hfound
    exact absurd hfound Bool.false_ne_true

end Leftovers

section Runs

theorem InModules.moves {s u : List Char} (hs : CleanRun s) (hu : InModules s u) :
    Moves false (tokens s) (tokens u) := by
  rcases hu with ⟨n,rfl⟩
  induction n with
  | zero => exact .refl
  | succ n ih =>
    rw [Function.iterate_succ_apply']
    exact ih.trans (clean_moves (Or.inl rfl) rfl (hs.modules _ ⟨n,rfl⟩))

theorem InPackages.moves {s u : List Char} (hs : CleanRun s) (hu : InPackages s u) :
    Moves false (tokens s) (tokens u) := by
  rcases hu with ⟨v,hv,hfix,n,rfl⟩
  induction n with
  | zero => exact hv.moves hs
  | succ n ih =>
    have hclean := hs.packages _ ⟨v,hv,hfix,n,rfl⟩
    simp only [cleanPackages,Bool.and_eq_true] at hclean
    rw [Function.iterate_succ_apply']
    exact ih.trans (clean_moves (Or.inr rfl) rfl hclean.1.1.1)

/-- The pass ends on every text. If it only meets clean texts, then in each of them imports have
moved behind headers and nothing else has happened; in the end no import is left before a header,
and nothing changes if the pass is run again. -/
theorem moves_imports (s : List Char) : (∃ t, Fixes s t) ∧
    (CleanRun s → (∀ u, InModules s u ∨ InPackages s u → Moves false (tokens s) (tokens u)) ∧
      ∀ t, Fixes s t → Moves false (tokens s) (tokens t) ∧
        ¬Left moduleHeader t ∧ ¬Left packageHeader t ∧ Fixes t t) := by
  refine ⟨exists_fixes s,fun hs => ⟨?_,fun t ht => ?_⟩⟩
  · rintro u (hu | hu)
    · exact hu.moves hs
    · exact hu.moves hs
  · rcases fixes_spec ht with ⟨u,hu,hufix,hn,htfix⟩
    have hreach : InPackages s t := ⟨u,hu,hufix,hn⟩
    have hclean := hs.packages t hreach
    simp only [cleanPackages,Bool.and_eq_true,decide_eq_true_eq] at hclean
    rcases hclean with ⟨⟨⟨-,hmodules⟩,hseen⟩,hseen'⟩
    have hnone := ((fixModules_count t).resolve_left fun h => absurd h (by rw [hmodules]; omega)).2
    have hnone' := ((fixPackages_value t).resolve_left fun h => absurd h (by rw [htfix]; omega)).2
    refine ⟨hreach.moves hs,not_left hseen hnone,not_left hseen' hnone',1,?_⟩
    rw [fix_global_imports,untilSame,if_pos hmodules]
    exact if_pos htfix

/-- A module with two imports before it and a package with one. -/
def stacked : List Char :=
  ("// c\nimport P::*;\nimport Q::*; // q\n`line 1\nmodule M;\nendmodule\n"++
    "import P::*;\npackage N ;\n").toList

/-- Two rounds of the first pattern and one of the second. -/
theorem stacked_rounds :
    fixModules (fixModules^[2] stacked)=fixModules^[2] stacked ∧
    (∀ m < 2, fixModules (fixModules^[m] stacked)≠fixModules^[m] stacked) ∧
    (∀ m < 3, cleanModules (fixModules^[m] stacked)=true) ∧
    fixPackages (fixPackages^[1] (fixModules^[2] stacked))=fixPackages^[1] (fixModules^[2] stacked) ∧
    ∀ m < 2, cleanPackages (fixPackages^[m] (fixModules^[2] stacked))=true := by
  decide +kernel

theorem stacked_clean : CleanRun stacked := by
  rcases stacked_rounds with ⟨hfix,hgo,hmodules,hfix',hpackages⟩
  constructor
  · rintro u ⟨n,rfl⟩
    rcases iterate_of_fixed hfix n with ⟨m,hm,heq⟩
    rw [heq]
    exact hmodules m (Nat.lt_succ_of_le hm)
  · rintro u ⟨v,⟨n,rfl⟩,hv,k,rfl⟩
    rcases iterate_of_fixed hfix n with ⟨m,hm,heq⟩
    rw [heq] at hv ⊢
    have htwo : m=2 := by
      by_contra hne
      exact hgo m (by omega) hv
    rw [htwo]
    rcases iterate_of_fixed hfix' k with ⟨m,hm,heq⟩
    rw [heq]
    exact hpackages m (Nat.lt_succ_of_le hm)

theorem moves_imports_stacked : CleanRun stacked ∧ ∃ t, Fixes stacked t ∧
    Moves false (tokens stacked) (tokens t) ∧ ¬Left moduleHeader t ∧ ¬Left packageHeader t := by
  rcases moves_imports stacked with ⟨⟨t,ht⟩,hclean⟩
  rcases (hclean stacked_clean).2 t ht with ⟨hmoves,hmodules,hpackages,-⟩
  exact ⟨stacked_clean,t,ht,hmoves,hmodules,hpackages⟩

/-- Behind a comment the line of an import with its module becomes a part of the comment. -/
theorem not_moves_imports : ¬∀ s t, Fixes s t → Moves false (tokens s) (tokens t) := by
  intro h
  have hrun : fix_global_imports 2 "// c\nimport P::*; module M;\n".toList=
        some "// c module M import P::*;;\n".toList ∧
      (tokens "// c\nimport P::*; module M;\n".toList).length=9 ∧
      (tokens "// c module M import P::*;;\n".toList).length=0 := by
    decide +kernel
  have hlen := (h _ _ ⟨2,hrun.1⟩).perm.length_eq
  rw [hrun.2.1,hrun.2.2] at hlen
  exact absurd hlen (by decide)

end Runs

end Pulpissimo.Cellift.ImportMoves
