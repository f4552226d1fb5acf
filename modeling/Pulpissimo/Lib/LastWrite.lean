import Mathlib.Data.List.Basic

/-!
# Folds of writes

A list of writes is folded into a state, and one place of the state is looked at.
Each write either replaces what is at the place or leaves it. What is found there
after all of them is what the last write at the place put, whatever the writes
before did there and whatever those after it did elsewhere.
-/

namespace Pulpissimo.LastWrite

variable {σ ω β : Type*}

/-- A list with a write at the place has a last one. -/
theorem exists_last {hits : ω → Prop} {ws : List ω} (h : ∃ w ∈ ws,hits w) :
    ∃ pre w post,ws=pre++w::post ∧ hits w ∧ ∀ y ∈ post,¬hits y := by
  induction ws with
  | nil =>
    rcases h with ⟨w,hw,-⟩
    exact absurd hw List.not_mem_nil
  | cons x ws ih =>
    by_cases hrest : ∃ w ∈ ws,hits w
    · rcases ih hrest with ⟨pre,w,post,hws,hw,hpost⟩
      exact ⟨x::pre,w,post,by rw [hws,List.cons_append],hw,hpost⟩
    · have hnone : ∀ y ∈ ws,¬hits y := fun y hy hyhits => hrest ⟨y,hy,hyhits⟩
      rcases h with ⟨w,hw,hhits⟩
      rcases List.mem_cons.mp hw with rfl | hw
      · exact ⟨[],w,ws,rfl,hhits,hnone⟩
      · exact absurd hhits (hnone w hw)

/-- A list with a write at the place has a first one. -/
theorem exists_first {hits : ω → Prop} {ws : List ω} (h : ∃ w ∈ ws,hits w) :
    ∃ pre w post,ws=pre++w::post ∧ hits w ∧ ∀ y ∈ pre,¬hits y := by
  rcases h with ⟨w,hw,hhits⟩
  have hrev : ∃ w ∈ ws.reverse,hits w := ⟨w,List.mem_reverse.mpr hw,hhits⟩
  rcases exists_last hrev with ⟨pre,x,post,hws,hx,hpost⟩
  refine ⟨post.reverse,x,pre.reverse,?_,hx,fun y hy => hpost y (List.mem_reverse.mp hy)⟩
  have hback := congrArg List.reverse hws
  rw [List.reverse_reverse,List.reverse_append,List.reverse_cons,List.append_assoc] at hback
  exact hback

section Place

variable {step : σ → ω → σ} {hits : ω → Prop} (look : σ → β) {put : σ → ω → β}

/-- Writes elsewhere leave the place as it was. -/
theorem look_of_untouched (hmiss : ∀ s w,¬hits w → look (step s w)=look s) {s : σ}
    {ws : List ω} (h : ∀ w ∈ ws,¬hits w) : look (ws.foldl step s)=look s := by
  induction ws generalizing s with
  | nil => rfl
  | cons w ws ih =>
    have hrest := ih (s:=step s w) fun y hy => h y (List.mem_cons_of_mem w hy)
    rw [List.foldl_cons,hrest]
    exact hmiss s w (h w List.mem_cons_self)

/-- The last write at the place decides. -/
theorem look_of_last (hmiss : ∀ s w,¬hits w → look (step s w)=look s)
    (hhit : ∀ s w,hits w → look (step s w)=put s w) {s : σ} {pre post : List ω} {w : ω}
    (hw : hits w) (hpost : ∀ y ∈ post,¬hits y) :
    look ((pre++w::post).foldl step s)=put (pre.foldl step s) w := by
  rw [List.foldl_append,List.foldl_cons,look_of_untouched look hmiss hpost]
  exact hhit _ w hw

end Place

end Pulpissimo.LastWrite
