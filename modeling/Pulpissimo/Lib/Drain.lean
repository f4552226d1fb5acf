import Mathlib.Data.List.Basic
import Mathlib.Data.Nat.Init

/-!
# Loops that drain a source

`while (get(x)) body(x)`: a source hands out items until it has none, and the body
folds each into a state. The source says how much it has left, so the loop ends; what
it does is the fold over the items that the source still has to hand out.
-/

namespace Pulpissimo.Drain

variable {σ τ ξ : Type*}

/-- A source of items that gets smaller with each. -/
structure Source (τ ξ : Type*) where
  /-- Next item and the source after it. -/
  get : τ → Option (ξ×τ)
  /-- Bound on the items left. -/
  left : τ → ℕ
  /-- An item makes the bound smaller. -/
  left_lt : ∀ {s x t},get s=some (x,t) → left t<left s

/-- The loop. -/
def drain (src : Source τ ξ) (body : σ → ξ → σ) (m : σ) (s : τ) : σ×τ :=
  match h : src.get s with
  | none => (m,s)
  | some (x,t) =>
    have := src.left_lt h
    drain src body (body m x) t
termination_by src.left s

variable {src : Source τ ξ} {body : σ → ξ → σ}

theorem drain_none {m : σ} {s : τ} (h : src.get s=none) : drain src body m s=(m,s) := by
  rw [drain]
  split
  · rfl
  · next x t hsome =>
    rw [h] at hsome
    cases hsome

theorem drain_some {m : σ} {s t : τ} {x : ξ} (h : src.get s=some (x,t)) :
    drain src body m s=drain src body (body m x) t := by
  rw [drain]
  split
  · next hnone =>
    rw [h] at hnone
    cases hnone
  · next y u hsome =>
    rw [h] at hsome
    cases hsome
    rfl

/-- The body is folded over the items to come. -/
theorem drain_fst (todo : τ → List ξ) (hnone : ∀ s,src.get s=none → todo s=[])
    (hsome : ∀ s x t,src.get s=some (x,t) → todo s=x::todo t) (m : σ) (s : τ) :
    (drain src body m s).1=(todo s).foldl body m := by
  induction hn : src.left s using Nat.strong_induction_on generalizing m s with
  | _ n ih =>
    cases hget : src.get s with
    | none =>
      rw [drain_none hget,hnone s hget]
      rfl
    | some xt =>
      obtain ⟨x,t⟩ := xt
      have hlt := src.left_lt hget
      rw [drain_some hget,hsome s x t hget,List.foldl_cons]
      exact ih (src.left t) (by omega) (body m x) t rfl

/-- What the source keeps while it hands out, and that it is empty in the end. -/
theorem drain_snd {P : τ → Prop} (hkeep : ∀ s x t,src.get s=some (x,t) → P s → P t) (m : σ) {s : τ}
    (h : P s) : P (drain src body m s).2 ∧ src.get (drain src body m s).2=none := by
  induction hn : src.left s using Nat.strong_induction_on generalizing m s with
  | _ n ih =>
    cases hget : src.get s with
    | none =>
      rw [drain_none hget]
      exact ⟨h,hget⟩
    | some xt =>
      obtain ⟨x,t⟩ := xt
      have hlt := src.left_lt hget
      rw [drain_some hget]
      exact ih (src.left t) (by omega) (body m x) (hkeep s x t hget h) rfl

/-- A list of items with a place in it. -/
structure Cursor (τ ξ : Type*) where
  /-- All items. -/
  items : τ → List ξ
  /-- Number of the next item. -/
  pos : τ → ℕ
  /-- Step to the item after it. -/
  advance : τ → τ
  /-- A step keeps the items. -/
  items_advance : ∀ s,items (advance s)=items s
  /-- It moves on by one. -/
  pos_advance : ∀ s,pos (advance s)=pos s+1

namespace Cursor

variable (c : Cursor τ ξ)

/-- The next item, while there is one. -/
def get (s : τ) : Option (ξ×τ) := (c.items s)[c.pos s]?.map fun x => (x,c.advance s)

theorem get_eq_some {c : Cursor τ ξ} {s t : τ} {x : ξ} (h : c.get s=some (x,t)) :
    ∃ hlt : c.pos s<(c.items s).length,(c.items s)[c.pos s]=x ∧ c.advance s=t := by
  rcases Option.map_eq_some_iff.mp h with ⟨y,hy,heq⟩
  rcases List.getElem?_eq_some_iff.mp hy with ⟨hlt,hitem⟩
  cases heq
  exact ⟨hlt,hitem,rfl⟩

theorem get_eq_none {c : Cursor τ ξ} {s : τ} (h : c.get s=none) :
    (c.items s).length ≤ c.pos s :=
  List.getElem?_eq_none_iff.mp (Option.map_eq_none_iff.mp h)

/-- A cursor is a source. -/
def source : Source τ ξ where
  get := c.get
  left := fun s => (c.items s).length-c.pos s
  left_lt := by
    intro s x t h
    obtain ⟨hlt,-,hadv⟩ := get_eq_some h
    rw [←hadv,c.items_advance,c.pos_advance]
    omega

/-- The loop folds over the items from the cursor on. -/
theorem drain_fst (m : σ) (s : τ) :
    (drain c.source body m s).1=((c.items s).drop (c.pos s)).foldl body m := by
  apply Drain.drain_fst fun s => (c.items s).drop (c.pos s)
  · intro s h
    exact List.drop_eq_nil_of_le (get_eq_none h)
  · intro s x t h
    obtain ⟨hlt,hitem,hadv⟩ := get_eq_some h
    rw [List.drop_eq_getElem_cons hlt,hitem,←hadv,c.items_advance,c.pos_advance]

/-- The loop keeps what a step keeps, and ends behind the last item. -/
theorem drain_snd (body : σ → ξ → σ) {P : τ → Prop}
    (hkeep : ∀ s,c.pos s<(c.items s).length → P s → P (c.advance s)) (m : σ) {s : τ} (h : P s) :
    P (drain c.source body m s).2 ∧
      (c.items (drain c.source body m s).2).length ≤ c.pos (drain c.source body m s).2 := by
  have hstep : ∀ s x t,c.source.get s=some (x,t) → P s → P t := by
    intro s x t hget hs
    obtain ⟨hlt,-,hadv⟩ := get_eq_some hget
    rw [←hadv]
    exact hkeep s hlt hs
  obtain ⟨hP,hget⟩ := Drain.drain_snd hstep m h
  exact ⟨hP,get_eq_none hget⟩

end Cursor

end Pulpissimo.Drain
