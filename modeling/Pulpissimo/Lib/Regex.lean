import Mathlib.Data.List.Basic
import Mathlib.Logic.Function.Iterate
import Mathlib.Order.WellFounded

/-!
# Regular expressions that search and replace

A backtracking matcher tries alternatives in order and repetitions from the
longest on, and hands what it matched to what comes behind. It finds something
exactly if the language of the expression allows it. Substitution replaces from
the left, and may be repeated until nothing changes.
-/

namespace Pulpissimo.Backtrack

/-- Regular expressions over some letters. -/
inductive Regex (α : Type*)
  /-- A letter of a class. -/
  | cls (p : α → Bool)
  /-- A word. -/
  | lit (w : List α)
  | seq (a b : Regex α)
  | alt (a b : Regex α)
  | star (a : Regex α)

section Matcher

variable {α : Type*} [DecidableEq α] {β : Type}

/-- Repetition of a match, the longest first, with some fuel. -/
def again (one : List α → (List α → List α → Option β) → Option β) :
    ℕ → List α → (List α → List α → Option β) → Option β
  | 0,s,k => k [] s
  | n+1,s,k => (one s fun x t => again one n t fun y u => k (x++y) u).or (k [] s)

/-- First way in which a match at the beginning of a text can be gone on with. -/
def Regex.first : Regex α → List α → (List α → List α → Option β) → Option β
  | cls p,s,k =>
    match s with
    | [] => none
    | c::t => if p c then k [c] t else none
  | lit w,s,k => if w <+: s then k w (s.drop w.length) else none
  | seq a b,s,k => a.first s fun x t => b.first t fun y u => k (x++y) u
  | alt a b,s,k => (a.first s k).or (b.first s k)
  | star a,s,k => again a.first s.length s k

/-- One or more. -/
def plus (a : Regex α) : Regex α := .seq a (.star a)

end Matcher

section Language

variable {α : Type*}

/-- Words that are made of words of a language. -/
inductive Repeats (P : List α → Prop) : List α → Prop
  | nil : Repeats P []
  | cons {x y : List α} (hne : x≠[]) (hx : P x) (hy : Repeats P y) : Repeats P (x++y)

/-- Language of an expression. -/
def Regex.Matches : Regex α → List α → Prop
  | cls p,x => ∃ c, p c=true ∧ x=[c]
  | lit w,x => x=w
  | seq a b,x => ∃ y z, a.Matches y ∧ b.Matches z ∧ x=y++z
  | alt a b,x => a.Matches x ∨ b.Matches x
  | star a,x => Repeats a.Matches x

/-- Letters of a class. -/
theorem repeats_cls {p : α → Bool} {x : List α} :
    Repeats (Regex.cls p).Matches x ↔ ∀ c ∈ x, p c=true := by
  constructor
  · intro h
    induction h with
    | nil => exact fun c hc => absurd hc List.not_mem_nil
    | cons hne hx hy ih =>
      rcases hx with ⟨c,hc,rfl⟩
      exact List.forall_mem_append.mpr ⟨List.forall_mem_singleton.mpr hc,ih⟩
  · intro h
    induction x with
    | nil => exact .nil
    | cons c x ih =>
      rcases List.forall_mem_cons.mp h with ⟨hc,hx⟩
      exact .cons (List.cons_ne_nil c []) ⟨c,hc,rfl⟩ (ih hx)

variable {β : Type}

theorem again_sound {P : List α → Prop}
    {one : List α → (List α → List α → Option β) → Option β} {b : β}
    (hone : ∀ s k, one s k=some b → ∃ x t, s=x++t ∧ P x ∧ k x t=some b) {n : ℕ} {s : List α}
    {k : List α → List α → Option β} (h : again one n s k=some b) :
    ∃ x t, s=x++t ∧ Repeats P x ∧ k x t=some b := by
  induction n generalizing s k with
  | zero => exact ⟨[],s,rfl,.nil,h⟩
  | succ n ih =>
    rw [again,Option.or_eq_some_iff] at h
    rcases h with h | ⟨-,h⟩
    · rcases hone s _ h with ⟨x,t,hs,hx,hrest⟩
      rcases ih hrest with ⟨y,u,ht,hy,hk⟩
      refine ⟨x++y,u,by rw [hs,ht,List.append_assoc],?_,hk⟩
      by_cases hne : x=[]
      · rw [hne,List.nil_append]
        exact hy
      · exact .cons hne hx hy
    · exact ⟨[],s,rfl,.nil,h⟩

theorem isSome_or {x y : Option β} (h : x.isSome=true ∨ y.isSome=true) : (x.or y).isSome=true := by
  cases x with
  | none => exact h.resolve_left nofun
  | some b => rfl

theorem again_complete {P : List α → Prop}
    {one : List α → (List α → List α → Option β) → Option β}
    (hone : ∀ x t k, P x → (k x t).isSome=true → (one (x++t) k).isSome=true) {x t : List α}
    (hx : Repeats P x) {n : ℕ} (hn : x.length ≤ n) {k : List α → List α → Option β}
    (h : (k x t).isSome=true) : (again one n (x++t) k).isSome=true := by
  induction hx generalizing n k with
  | nil =>
    cases n with
    | zero => exact h
    | succ n => exact isSome_or (Or.inr h)
  | @cons x y hne hx hy ih =>
    have hpos := List.length_pos_iff.mpr hne
    rw [List.length_append] at hn
    cases n with
    | zero => omega
    | succ n =>
      refine isSome_or (Or.inl ?_)
      rw [List.append_assoc]
      exact hone x _ _ hx (ih (by omega) h)

variable [DecidableEq α]

/-- What is found is in the language. -/
theorem first_sound {r : Regex α} {s : List α} {k : List α → List α → Option β} {b : β}
    (h : r.first s k=some b) : ∃ x t, s=x++t ∧ r.Matches x ∧ k x t=some b := by
  induction r generalizing s k with
  | cls p =>
    cases s with
    | nil => exact absurd h nofun
    | cons c t =>
      rw [Regex.first] at h
      split_ifs at h with hc
      exact ⟨[c],t,rfl,⟨c,hc,rfl⟩,h⟩
  | lit w =>
    rw [Regex.first] at h
    split_ifs at h with hw
    rcases hw with ⟨t,rfl⟩
    rw [List.drop_left] at h
    exact ⟨w,t,rfl,rfl,h⟩
  | seq a b iha ihb =>
    rcases iha h with ⟨x,t,hs,hx,hrest⟩
    rcases ihb hrest with ⟨y,u,ht,hy,hk⟩
    exact ⟨x++y,u,by rw [hs,ht,List.append_assoc],⟨x,y,hx,hy,rfl⟩,hk⟩
  | alt a b iha ihb =>
    rw [Regex.first,Option.or_eq_some_iff] at h
    rcases h with h | ⟨-,h⟩
    · rcases iha h with ⟨x,t,hs,hx,hk⟩
      exact ⟨x,t,hs,Or.inl hx,hk⟩
    · rcases ihb h with ⟨x,t,hs,hx,hk⟩
      exact ⟨x,t,hs,Or.inr hx,hk⟩
  | star a ih => exact again_sound (fun _ _ => ih) h

/-- What is in the language is found. -/
theorem first_complete {r : Regex α} {x t : List α} {k : List α → List α → Option β}
    (hx : r.Matches x) (h : (k x t).isSome=true) : (r.first (x++t) k).isSome=true := by
  induction r generalizing x t k with
  | cls p =>
    rcases hx with ⟨c,hc,rfl⟩
    rw [List.singleton_append,Regex.first,if_pos hc]
    exact h
  | lit w =>
    change x=w at hx
    rw [hx] at h ⊢
    rw [Regex.first,if_pos (List.prefix_append w t),List.drop_left]
    exact h
  | seq a b iha ihb =>
    rcases hx with ⟨y,z,hy,hz,rfl⟩
    rw [List.append_assoc]
    exact iha hy (ihb hz h)
  | alt a b iha ihb =>
    rw [Regex.first]
    rcases hx with hx | hx
    · exact isSome_or (Or.inl (iha hx h))
    · exact isSome_or (Or.inr (ihb hx h))
  | star a ih =>
    refine again_complete (fun _ _ _ => ih) hx ?_ h
    rw [List.length_append]
    omega

end Language

section Substitution

variable {α : Type*} (find : List α → Option (List α×List α))

/-- Replacement from the left with some fuel. Where nothing is found a letter is kept. -/
def substitute : ℕ → List α → List α
  | 0,s => s
  | n+1,s =>
    match find s with
    | some (y,t) => y++substitute n t
    | none =>
      match s with
      | [] => []
      | c::t => c::substitute n t

/-- Replacement of everything that is found. -/
def sub (s : List α) : List α := substitute find s.length s

/-- What is found is not empty. -/
def Consumes : Prop := ∀ s y t, find s=some (y,t) → t.length < s.length

variable {find}

theorem substitute_nil (hfind : Consumes find) (n : ℕ) : substitute find n []=[] := by
  cases n with
  | zero => rfl
  | succ n =>
    unfold substitute
    cases hf : find [] with
    | none => rfl
    | some yt => exact absurd (hfind [] yt.1 yt.2 hf) (Nat.not_lt_zero _)

theorem substitute_eq (hfind : Consumes find) {n : ℕ} {s : List α} (hn : s.length ≤ n) :
    substitute find n s=sub find s := by
  have hfuel : ∀ m n, ∀ s : List α, s.length ≤ m → s.length ≤ n →
      substitute find m s=substitute find n s := by
    intro m n
    induction m generalizing n with
    | zero =>
      intro s hm _
      rw [List.length_eq_zero_iff.mp (Nat.le_zero.mp hm),substitute_nil hfind,substitute_nil hfind]
    | succ m ih =>
      intro s hm hn
      cases n with
      | zero =>
        rw [List.length_eq_zero_iff.mp (Nat.le_zero.mp hn),substitute_nil hfind,
          substitute_nil hfind]
      | succ n =>
        unfold substitute
        cases hf : find s with
        | some yt =>
          have hlt := hfind s yt.1 yt.2 hf
          exact congrArg (yt.1++·) (ih n yt.2 (by omega) (by omega))
        | none =>
          cases s with
          | nil => rfl
          | cons c t =>
            rw [List.length_cons] at hm hn
            exact congrArg (c::·) (ih n t (by omega) (by omega))
  exact hfuel n s.length s hn (Nat.le_refl _)

theorem sub_found (hfind : Consumes find) {s y t : List α} (h : find s=some (y,t)) :
    sub find s=y++sub find t := by
  have hlt := hfind s y t h
  cases s with
  | nil => exact absurd hlt (Nat.not_lt_zero _)
  | cons c s =>
    rw [sub,List.length_cons,substitute,h]
    rw [List.length_cons] at hlt
    exact congrArg (y++·) (substitute_eq hfind (Nat.le_of_lt_succ hlt))

theorem sub_kept {c : α} {t : List α} (h : find (c::t)=none) : sub find (c::t)=c::sub find t := by
  rw [sub,List.length_cons,substitute,h]
  rfl

theorem sub_nil : sub find []=[] := rfl

/-- Induction along a substitution. -/
theorem sub_induction (hfind : Consumes find) {P : List α → Prop} (nil : P [])
    (found : ∀ s y t, find s=some (y,t) → P t → P s)
    (kept : ∀ c t, find (c::t)=none → P t → P (c::t)) (s : List α) : P s := by
  induction hn : s.length using Nat.strong_induction_on generalizing s with
  | _ n ih =>
    cases hf : find s with
    | some yt => exact found s yt.1 yt.2 hf (ih _ (hn ▸ hfind s yt.1 yt.2 hf) yt.2 rfl)
    | none =>
      cases s with
      | nil => exact nil
      | cons c t => exact kept c t hf (ih _ (hn ▸ Nat.lt_succ_self t.length) t rfl)

/-- A measure that falls with each replacement falls unless nothing is found. -/
theorem sub_measure (hfind : Consumes find) (μ : List α → ℕ)
    (found : ∀ s y t t', find s=some (y,t) → (t'=t ∨ μ t' < μ t) → t'.length ≤ t.length →
      μ (y++t') < μ s)
    (hlength : ∀ s y t, find s=some (y,t) → y.length+t.length ≤ s.length)
    (kept : ∀ c t t', μ t' < μ t → t'.length ≤ t.length → μ (c::t') < μ (c::t)) (s : List α) :
    (sub find s).length ≤ s.length ∧ (μ (sub find s) < μ s ∨ sub find s=s ∧
      ∀ a b, s=a++b → b≠[] → find b=none) := by
  induction s using sub_induction hfind with
  | nil =>
    exact ⟨Nat.le_refl _,Or.inr ⟨rfl,fun a b h hb =>
      absurd (List.append_eq_nil_iff.mp h.symm).2 hb⟩⟩
  | found s y t hf ih =>
    have hlen := hlength s y t hf
    rw [sub_found hfind hf,List.length_append]
    refine ⟨by omega,Or.inl (found s y t _ hf ?_ ih.1)⟩
    rcases ih.2 with hlt | hsame
    · exact Or.inr hlt
    · exact Or.inl hsame.1
  | kept c t hf ih =>
    rw [sub_kept hf,List.length_cons,List.length_cons]
    refine ⟨by omega,?_⟩
    rcases ih.2 with hlt | ⟨hsame,hnone⟩
    · exact Or.inl (kept c t _ hlt ih.1)
    · refine Or.inr ⟨by rw [hsame],fun a b hab hb => ?_⟩
      cases a with
      | nil =>
        rw [List.nil_append] at hab
        exact hab ▸ hf
      | cons d a => exact hnone a b (List.cons.inj hab).2 hb

end Substitution

section Fixpoint

variable {σ : Type*} [DecidableEq σ] (f : σ → σ)

/-- Repetition until nothing changes, with some fuel. -/
def untilSame : ℕ → σ → Option σ
  | 0,_ => none
  | n+1,s => if f s=s then some s else untilSame n (f s)

variable {f}

/-- The result is the first text that does not change. -/
theorem untilSame_spec {n : ℕ} {s t : σ} (h : untilSame f n s=some t) :
    f t=t ∧ ∃ m, t=f^[m] s := by
  induction n generalizing s with
  | zero => exact absurd h nofun
  | succ n ih =>
    rw [untilSame] at h
    split_ifs at h with hsame
    · cases h
      exact ⟨hsame,0,rfl⟩
    · rcases ih h with ⟨hfix,m,hm⟩
      exact ⟨hfix,m+1,hm⟩

/-- More fuel gives the same. -/
theorem untilSame_mono {n m : ℕ} {s t : σ} (h : untilSame f n s=some t) (hm : n ≤ m) :
    untilSame f m s=some t := by
  induction n generalizing s m with
  | zero => exact absurd h nofun
  | succ n ih =>
    cases m with
    | zero => omega
    | succ m =>
      rw [untilSame] at h ⊢
      split_ifs at h ⊢ with hsame
      · exact h
      · exact ih h (by omega)

/-- With a measure that falls with each change it ends. -/
theorem exists_untilSame (μ : σ → ℕ) (hμ : ∀ s, f s≠s → μ (f s) < μ s) (s : σ) :
    ∃ n t, untilSame f n s=some t := by
  induction hn : μ s using Nat.strong_induction_on generalizing s with
  | _ n ih =>
    by_cases hsame : f s=s
    · exact ⟨1,s,if_pos hsame⟩
    · rcases ih _ (hn ▸ hμ s hsame) (f s) rfl with ⟨m,t,ht⟩
      exact ⟨m+1,t,(if_neg hsame).trans ht⟩

omit [DecidableEq σ] in
/-- What is reached after a fixpoint was reached before. -/
theorem iterate_of_fixed {k : ℕ} {s : σ} (h : f (f^[k] s)=f^[k] s) (n : ℕ) :
    ∃ m, m ≤ k ∧ f^[n] s=f^[m] s := by
  by_cases hn : n ≤ k
  · exact ⟨n,hn,rfl⟩
  · refine ⟨k,le_refl k,?_⟩
    rw [show n=n-k+k by omega,Function.iterate_add_apply]
    exact Function.iterate_fixed h (n-k)

end Fixpoint

end Pulpissimo.Backtrack
