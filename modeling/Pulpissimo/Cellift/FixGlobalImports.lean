import Mathlib.Tactic.Ring
import Pulpissimo.Lib.Regex

/-!
# The pass that moves global imports into headers

`fix_global_imports.py` rewrites a Verilog text with two regular expressions. Each is
applied until nothing changes: the first puts imports that stand before a module or an
interface into its header, the second puts those before a package behind its header.
-/

namespace Pulpissimo.Cellift.FixGlobalImports

open Pulpissimo.Backtrack

section Code

/-- `\s`, for Unicode texts. -/
def isSpace (c : Char) : Bool :=
  (9 ≤ c.toNat && c.toNat ≤ 13) || (28 ≤ c.toNat && c.toNat ≤ 32) || c.toNat==0x85 ||
    c.toNat==0xA0 || c.toNat==0x1680 || (0x2000 ≤ c.toNat && c.toNat ≤ 0x200A) ||
    c.toNat==0x2028 || c.toNat==0x2029 || c.toNat==0x202F || c.toNat==0x205F || c.toNat==0x3000

/-- `[a-zA-Z0-9_]`. -/
def isName (c : Char) : Bool :=
  ('a' ≤ c && c ≤ 'z') || ('A' ≤ c && c ≤ 'Z') || ('0' ≤ c && c ≤ '9') || c == '_'

/-- `\n`. -/
def newline : Regex Char := .cls (· == '\n')

/-- `\n\s*`. -/
def lead : Regex Char := .seq newline (.star (.cls isSpace))

/-- `import [a-zA-Z0-9_]+::\*;`. -/
def item : Regex Char :=
  .seq (.lit "import ".toList) (.seq (plus (.cls isName)) (.lit "::*;".toList))

/-- ``(?://|`)[^\n]*\n``. -/
def comment : Regex Char :=
  .seq (.alt (.lit "//".toList) (.lit "`".toList)) (.seq (.star (.cls (· != '\n'))) newline)

/-- ``(?:\s|\n|(?://|`)[^\n]*\n)*``. -/
def between : Regex Char := .star (.alt (.cls isSpace) (.alt newline comment))

/-- `(?:\s|\n)+[a-zA-Z0-9_]+`. -/
def name : Regex Char := .seq (plus (.alt (.cls isSpace) newline)) (plus (.cls isName))

/-- `(?:module|interface)(?:\s|\n)+[a-zA-Z0-9_]+`. -/
def moduleHeader : Regex Char :=
  .seq (.alt (.lit "module".toList) (.lit "interface".toList)) name

/-- `(?:package)(?:\s|\n)+[a-zA-Z0-9_]+\s*;`. -/
def packageHeader : Regex Char :=
  .seq (.lit "package".toList) (.seq name (.seq (.star (.cls isSpace)) (.lit ";".toList)))

/-- The three groups, and the text behind them. -/
structure Found where
  item : List Char
  between : List Char
  header : List Char
  rest : List Char

/-- A match at the beginning of a text. -/
def search (header : Regex Char) (s : List Char) : Option Found :=
  lead.first s fun _ s => item.first s fun i s => between.first s fun b s =>
    header.first s fun h rest => some ⟨i,b,h,rest⟩

/-- Replacement of the matches with a letter between header and import. -/
def replace (header : Regex Char) (separator : Char) (s : List Char) : List Char :=
  sub (fun s => (search header s).map fun m =>
    (m.between++m.header++separator::m.item,m.rest)) s

/-- Modules and interfaces. -/
def fixModules (s : List Char) : List Char := replace moduleHeader ' ' s

/-- Packages. -/
def fixPackages (s : List Char) : List Char := replace packageHeader '\n' s

/-- Both loops, with some fuel. -/
def fix_global_imports (n : ℕ) (verilog_content : List Char) : Option (List Char) :=
  (untilSame fixModules n verilog_content).bind (untilSame fixPackages n)

end Code

/-- The pass ends with a text. -/
def Fixes (s t : List Char) : Prop := ∃ n, fix_global_imports n s=some t

section Patterns

/-- Blanks. -/
def Blank (w : List Char) : Prop := ∀ c ∈ w, isSpace c=true

theorem matches_lead {x : List Char} (h : lead.Matches x) : ∃ w, Blank w ∧ x = '\n'::w := by
  rcases h with ⟨y,w,⟨c,hc,rfl⟩,hw,rfl⟩
  exact ⟨w,repeats_cls.mp hw,by rw [beq_iff_eq.mp hc]; rfl⟩

theorem lead_matches {w : List Char} (hw : Blank w) : lead.Matches ('\n'::w) :=
  ⟨['\n'],w,⟨'\n',rfl,rfl⟩,repeats_cls.mpr hw,rfl⟩

theorem matches_plus {p : Char → Bool} {x : List Char} (h : (plus (.cls p)).Matches x) :
    x≠[] ∧ ∀ c ∈ x, p c=true := by
  rcases h with ⟨y,z,⟨c,hc,rfl⟩,hz,rfl⟩
  exact ⟨List.cons_ne_nil _ _,List.forall_mem_cons.mpr ⟨hc,repeats_cls.mp hz⟩⟩

theorem matches_item {x : List Char} (h : item.Matches x) : ∃ n, n≠[] ∧
    (∀ c ∈ n, isName c=true) ∧ x="import ".toList++(n++"::*;".toList) := by
  rcases h with ⟨y,z,hy,⟨n,e,hn,he,rfl⟩,rfl⟩
  change y=_ at hy
  change e=_ at he
  rw [hy,he]
  exact ⟨n,(matches_plus hn).1,(matches_plus hn).2,rfl⟩

/-- A blank, or a line of a comment or a directive. -/
inductive Piece : List Char → Prop
  | blank {c : Char} (hc : isSpace c=true) : Piece [c]
  | comment {body : List Char} (hbody : '\n' ∉ body) : Piece ('/' :: '/'::(body++['\n']))
  | directive {body : List Char} (hbody : '\n' ∉ body) : Piece ('\x60'::(body++['\n']))

theorem matches_comment {x : List Char} (h : comment.Matches x) : Piece x := by
  rcases h with ⟨y,z,hy,⟨body,e,hbody,⟨c,hc,rfl⟩,rfl⟩,rfl⟩
  have hfree : '\n' ∉ body := fun hmem => by
    have hne := repeats_cls.mp hbody _ hmem
    exact absurd hne (by decide)
  rw [beq_iff_eq.mp hc]
  rcases hy with hy | hy
  · change y="//".toList at hy
    rw [hy]
    exact .comment hfree
  · change y="`".toList at hy
    rw [hy]
    exact .directive hfree

/-- What may stand between an import and a header. -/
inductive Gap : List Char → Prop
  | nil : Gap []
  | cons {x g : List Char} (hx : Piece x) (hg : Gap g) : Gap (x++g)

theorem matches_between {x : List Char} (h : between.Matches x) : Gap x := by
  induction h with
  | nil => exact .nil
  | cons _ hx _ ih =>
    refine .cons ?_ ih
    rcases hx with ⟨c,hc,rfl⟩ | ⟨c,hc,rfl⟩ | hx
    · exact .blank hc
    · rw [beq_iff_eq.mp hc]
      exact .blank (by decide)
    · exact matches_comment hx

/-- A match is made of its groups. -/
theorem search_sound {header : Regex Char} {s : List Char} {m : Found}
    (h : search header s=some m) :
    ∃ w, Blank w ∧ s = '\n'::w++(m.item++(m.between++(m.header++m.rest))) ∧ item.Matches m.item ∧
      Gap m.between ∧ header.Matches m.header := by
  rcases first_sound h with ⟨x,s1,rfl,hx,h1⟩
  rcases first_sound h1 with ⟨i,s2,rfl,hi,h2⟩
  rcases first_sound h2 with ⟨b,s3,rfl,hb,h3⟩
  rcases first_sound h3 with ⟨d,s4,rfl,hd,h4⟩
  rcases matches_lead hx with ⟨w,hw,rfl⟩
  have hm := Option.some.inj h4
  rw [←hm]
  exact ⟨w,hw,rfl,hi,matches_between hb,hd⟩

/-- The finder of a replacement. -/
theorem find_eq {header : Regex Char} {separator : Char} {s y t : List Char}
    (h : (search header s).map (fun m => (m.between++m.header++separator::m.item,m.rest))=some (y,t)) :
    ∃ m, search header s=some m ∧ y=m.between++m.header++separator::m.item ∧ t=m.rest := by
  rcases Option.map_eq_some_iff.mp h with ⟨m,hm,heq⟩
  cases heq
  exact ⟨m,hm,rfl,rfl⟩

/-- Each match takes some of the text. -/
theorem consumes (header : Regex Char) (separator : Char) :
    Consumes fun s => (search header s).map fun m =>
      (m.between++m.header++separator::m.item,m.rest) := by
  intro s y t h
  rcases find_eq h with ⟨m,hm,-,rfl⟩
  rcases search_sound hm with ⟨w,-,hs,-⟩
  rw [hs]
  simp only [List.length_append,List.length_cons]
  omega

end Patterns

section Modules

/-- Each import that goes into a header loses the newline before it. -/
theorem fixModules_count (s : List Char) : (fixModules s).count '\n' < s.count '\n' ∨
    fixModules s=s ∧ ∀ a b, s=a++b → b≠[] → search moduleHeader b=none := by
  have h := (sub_measure (consumes moduleHeader ' ') (fun s : List Char => s.count '\n') ?_ ?_ ?_ s).2
  · rcases h with hlt | ⟨hsame,hnone⟩
    · exact Or.inl hlt
    · exact Or.inr ⟨hsame,fun a b hab hb => Option.map_eq_none_iff.mp (hnone a b hab hb)⟩
  · intro s y t t' h ht _
    rcases find_eq h with ⟨m,hm,rfl,rfl⟩
    rcases search_sound hm with ⟨w,-,rfl,-⟩
    have hle : t'.count '\n' ≤ m.rest.count '\n' := ht.elim (fun heq => heq ▸ le_refl _) le_of_lt
    have hsep : (' '::m.item).count '\n'=m.item.count '\n' := List.count_cons_of_ne (by decide)
    show _ < ('\n'::(w++(m.item++(m.between++(m.header++m.rest))))).count '\n'
    rw [List.count_cons_self]
    simp only [List.count_append,hsep]
    omega
  · intro s y t h
    rcases find_eq h with ⟨m,hm,rfl,rfl⟩
    rcases search_sound hm with ⟨w,-,hs,-⟩
    rw [hs]
    simp only [List.length_append,List.length_cons]
    omega
  · intro c t t' hlt _
    rw [List.count_cons,List.count_cons]
    omega

end Modules

section Packages

/-- Imports are heavy, and so are newlines. -/
def weight (c : Char) : ℕ := if c = 'i' then 3 else if c = '\n' then 2 else 1

/-- A text as a number with the weights as digits. -/
def value : List Char → ℕ
  | [] => 0
  | c::t => weight c*4^t.length+value t

theorem weight_bounds (c : Char) : 1 ≤ weight c ∧ weight c ≤ 3 := by
  unfold weight
  split_ifs <;> omega

theorem value_lt (t : List Char) : value t < 4^t.length := by
  induction t with
  | nil => exact Nat.one_pos
  | cons c t ih =>
    have hw := (weight_bounds c).2
    rw [value,List.length_cons,pow_succ]
    have hmul := Nat.mul_le_mul_right (4^t.length) hw
    omega

theorem value_append (x t : List Char) : value (x++t)=value x*4^t.length+value t := by
  induction x with
  | nil => rw [List.nil_append,value,Nat.zero_mul,Nat.zero_add]
  | cons c x ih =>
    rw [List.cons_append,value,value,ih,List.length_append,pow_add]
    ring

/-- A longer text is heavier. -/
theorem value_lt_of_length {x y : List Char} (h : y.length < x.length) : value y < value x := by
  cases x with
  | nil => exact absurd h (Nat.not_lt_zero _)
  | cons c x =>
    have hpow : 4^y.length ≤ 4^x.length := Nat.pow_le_pow_right (by omega) (Nat.le_of_lt_succ h)
    have hone := Nat.mul_le_mul_right (4^x.length) (weight_bounds c).1
    have hlt := value_lt y
    rw [value]
    omega

/-- Of texts of one length the one with the heavier first letter is heavier. -/
theorem value_lt_of_digit {c d : Char} {x y : List Char} (hlen : y.length=x.length)
    (h : weight d < weight c) : value (d::y) < value (c::x) := by
  have hmul := Nat.mul_le_mul_right (4^x.length) h
  have hlt := value_lt y
  rw [Nat.succ_mul] at hmul
  rw [hlen] at hlt
  rw [value,value,hlen]
  omega

/-- What is replaced by something lighter makes the text lighter. -/
theorem value_lt_of_front {x y t t' : List Char} (h : value y < value x)
    (ht : t'.length ≤ t.length) : value (y++t') < value (x++t) := by
  have hpow : 4^t'.length ≤ 4^t.length := Nat.pow_le_pow_right (by omega) ht
  have hlt := value_lt t'
  have hone := Nat.mul_le_mul_right (4^t.length) h
  have htwo := Nat.mul_le_mul_left (value y) hpow
  rw [Nat.succ_mul] at hone
  rw [value_append,value_append]
  omega

/-- Between an import and a package no `i` comes first. -/
theorem first_ne {g h : List Char} (hg : Gap g) {t : List Char} (hh : h = 'p'::t) {c : Char}
    {z : List Char} (heq : g++h=c::z) : c ≠ 'i' := by
  cases hg with
  | nil =>
    rw [List.nil_append,hh] at heq
    cases heq
    decide
  | cons hx _ =>
    cases hx with
    | blank hc =>
      cases heq
      intro hi
      rw [hi] at hc
      exact absurd hc (by decide)
    | comment _ =>
      cases heq
      decide
    | directive _ =>
      cases heq
      decide

/-- After a newline too. -/
theorem second_ne {g h : List Char} (hg : Gap g) {t : List Char} (hh : h = 'p'::t) {c : Char}
    {z : List Char} (heq : g++h = '\n'::c::z) : c ≠ 'i' := by
  cases hg with
  | nil =>
    rw [List.nil_append,hh] at heq
    cases heq
  | @cons x g hx hg =>
    cases hx with
    | blank hc => exact first_ne hg hh (List.cons.inj heq).2
    | comment _ => cases heq
    | directive _ => cases heq

theorem matches_package {h : List Char} (hh : packageHeader.Matches h) : ∃ t, h = 'p'::t := by
  rcases hh with ⟨y,z,hy,-,rfl⟩
  change y="package".toList at hy
  exact ⟨"ackage".toList++z,by rw [hy]; rfl⟩

/-- An import behind the header is lighter than one before it. -/
theorem value_moved {w i g h : List Char} (hi : item.Matches i) (hg : Gap g)
    (hh : packageHeader.Matches h) :
    value (g++h ++ '\n'::i) < value ('\n'::w++(i++(g++h))) := by
  rcases matches_item hi with ⟨n,-,-,rfl⟩
  rcases matches_package hh with ⟨t,ht⟩
  cases w with
  | cons d w =>
    refine value_lt_of_length ?_
    simp only [List.length_append,List.length_cons]
    omega
  | nil =>
    cases hgh : g++h with
    | nil =>
      rw [List.append_eq_nil_iff,ht] at hgh
      exact absurd hgh.2 (List.cons_ne_nil _ _)
    | cons c z =>
      -- both texts have the same length, and the first letters that differ decide
      show value (c::(z ++ '\n' :: 'i'::("mport ".toList++(n++"::*;".toList)))) <
        value ('\n' :: 'i'::("mport ".toList++(n++"::*;".toList)++c::z))
      by_cases hnl : c = '\n'
      · rw [hnl] at hgh ⊢
        rw [value,value]
        have hlen : (z ++ '\n' :: 'i'::("mport ".toList++(n++"::*;".toList))).length=
            ('i'::("mport ".toList++(n++"::*;".toList) ++ '\n'::z)).length := by
          simp only [List.length_append,List.length_cons]
          omega
        rw [hlen]
        refine Nat.add_lt_add_left ?_ _
        cases z with
        | nil => exact value_lt_of_digit (by simp) (by decide)
        | cons d z =>
          refine value_lt_of_digit (Nat.succ.inj hlen) ?_
          have hd := second_ne hg ht hgh
          unfold weight
          rw [if_neg hd,if_pos rfl]
          split_ifs <;> omega
      · refine value_lt_of_digit ?_ ?_
        · simp only [List.length_append,List.length_cons]
          omega
        · unfold weight
          rw [if_neg (first_ne hg ht hgh),if_neg hnl]
          decide

/-- Each import that goes behind a package makes the text lighter. -/
theorem fixPackages_value (s : List Char) : value (fixPackages s) < value s ∨
    fixPackages s=s ∧ ∀ a b, s=a++b → b≠[] → search packageHeader b=none := by
  have h := (sub_measure (consumes packageHeader '\n') value ?_ ?_ ?_ s).2
  · rcases h with hlt | ⟨hsame,hnone⟩
    · exact Or.inl hlt
    · exact Or.inr ⟨hsame,fun a b hab hb => Option.map_eq_none_iff.mp (hnone a b hab hb)⟩
  · intro s y t t' h _ hlen
    rcases find_eq h with ⟨m,hm,rfl,rfl⟩
    rcases search_sound hm with ⟨w,-,rfl,hi,hg,hh⟩
    have hfront := value_lt_of_front (value_moved (w := w) hi hg hh) hlen
    simp only [List.append_assoc,List.cons_append] at hfront ⊢
    exact hfront
  · intro s y t h
    rcases find_eq h with ⟨m,hm,rfl,rfl⟩
    rcases search_sound hm with ⟨w,-,hs,-⟩
    rw [hs]
    simp only [List.length_append,List.length_cons]
    omega
  · intro c t t' hlt hlen
    have hpow := Nat.mul_le_mul_left (weight c) (Nat.pow_le_pow_right (show 0 < 4 by omega) hlen)
    rw [value,value]
    omega

end Packages

/-- Both loops end on every text. -/
theorem exists_fixes (s : List Char) : ∃ t, Fixes s t := by
  have hmodules : ∀ s, fixModules s≠s → (fixModules s).count '\n' < s.count '\n' :=
    fun s hne => (fixModules_count s).resolve_right fun h => hne h.1
  have hpackages : ∀ s, fixPackages s≠s → value (fixPackages s) < value s :=
    fun s hne => (fixPackages_value s).resolve_right fun h => hne h.1
  rcases exists_untilSame _ hmodules s with ⟨n,u,hu⟩
  rcases exists_untilSame _ hpackages u with ⟨m,t,ht⟩
  refine ⟨t,max n m,?_⟩
  rw [fix_global_imports,untilSame_mono hu (le_max_left n m)]
  exact untilSame_mono ht (le_max_right n m)

/-- What the pass ends with is reached by rounds of the first pattern, up to a text without
matches, and then by rounds of the second. -/
theorem fixes_spec {s t : List Char} (h : Fixes s t) : ∃ u, (∃ n, u=fixModules^[n] s) ∧
    fixModules u=u ∧ (∃ n, t=fixPackages^[n] u) ∧ fixPackages t=t := by
  rcases h with ⟨n,h⟩
  rcases Option.bind_eq_some_iff.mp h with ⟨u,hu,ht⟩
  exact ⟨u,(untilSame_spec hu).2,(untilSame_spec hu).1,(untilSame_spec ht).2,(untilSame_spec ht).1⟩

end Pulpissimo.Cellift.FixGlobalImports
