import Mathlib.Data.List.Basic
import Mathlib.Data.Nat.Find

/-!
# Orders kept at both ends

Parties of two sides place orders with each other. Every party keeps a queue of its own
orders, with a ticket and the other party in each entry, and an order is put at the end
of two queues at once. It is carried out when it is in front of both, and leaves both
then. The tickets show that the two sides never wait for each other in a circle: the
oldest order is in front of both its queues.
-/

namespace Pulpissimo.Tickets

variable {M S : Type*} {L : M → List (ℕ×S)} {R : S → List (ℕ×M)} {now : ℕ}

/-- The queues of both sides have the same orders, oldest in front. -/
structure Linked (L : M → List (ℕ×S)) (R : S → List (ℕ×M)) (now : ℕ) : Prop where
  left_sorted : ∀ m,(L m).Pairwise fun x y => x.1<y.1
  right_sorted : ∀ j,(R j).Pairwise fun x y => x.1<y.1
  left_lt : ∀ m x,x ∈ L m → x.1<now
  right_lt : ∀ j x,x ∈ R j → x.1<now
  same : ∀ q m j,(q,j) ∈ L m ↔ (q,m) ∈ R j

/-- The rest of a queue if its front is taken. -/
def rest {α : Type*} (taken : Bool) (l : List α) : List α := if taken then l.tail else l

theorem Linked.symm (h : Linked L R now) : Linked R L now :=
  ⟨h.right_sorted,h.left_sorted,h.right_lt,h.left_lt,fun q j m => (h.same q m j).symm⟩

theorem linked_empty (now : ℕ) : Linked (fun _ : M => ([] : List (ℕ×S))) (fun _ => []) now :=
  ⟨fun _ => List.Pairwise.nil,fun _ => List.Pairwise.nil,nofun,nofun,
    fun _ _ _ => ⟨nofun,nofun⟩⟩

section Front

variable {α : Type*} {xs : List (ℕ×α)}

theorem front_le {x y : ℕ×α} (hsorted : (x::xs).Pairwise fun x y => x.1<y.1) (hy : y ∈ x::xs) :
    x.1 ≤ y.1 := by
  rcases List.mem_cons.mp hy with rfl | hy
  · exact Nat.le_refl _
  · exact Nat.le_of_lt (List.rel_of_pairwise_cons hsorted hy)

/-- An oldest order is in front. -/
theorem front_of_le {q : ℕ} {x : α} (hsorted : xs.Pairwise fun x y => x.1<y.1)
    (hmin : ∀ y ∈ xs,q ≤ y.1) (hx : (q,x) ∈ xs) : ∃ ys,xs=(q,x)::ys := by
  cases xs with
  | nil => exact absurd hx List.not_mem_nil
  | cons y ys =>
    rcases List.mem_cons.mp hx with rfl | hx
    · exact ⟨ys,rfl⟩
    · have hlt : y.1<q := List.rel_of_pairwise_cons hsorted hx
      exact absurd (hmin y List.mem_cons_self) (Nat.not_le.mpr hlt)

end Front

/-- Two parties whose fronts name each other have the same order there. -/
theorem Linked.ticket_eq (h : Linked L R now) {m : M} {j : S} {q q' : ℕ} {l : List (ℕ×S)}
    {r : List (ℕ×M)} (hl : L m=(q,j)::l) (hr : R j=(q',m)::r) : q=q' := by
  have hleft := h.left_sorted m
  have hright := h.right_sorted j
  have hmem : (q',j) ∈ L m := (h.same q' m j).mpr (hr ▸ List.mem_cons_self)
  have hmem' : (q,m) ∈ R j := (h.same q m j).mp (hl ▸ List.mem_cons_self)
  rw [hl] at hleft hmem
  rw [hr] at hright hmem'
  exact Nat.le_antisymm (front_le hleft hmem) (front_le hright hmem')

/-- While there are orders, one is in front of both its queues. -/
theorem Linked.exists_front (h : Linked L R now) {m : M} (hm : L m≠[]) :
    ∃ m j q l r,L m=(q,j)::l ∧ R j=(q,m)::r := by
  classical
  have hex : ∃ q m j,(q,j) ∈ L m := by
    rcases List.exists_cons_of_ne_nil hm with ⟨⟨q,j⟩,l,hl⟩
    exact ⟨q,m,j,hl ▸ List.mem_cons_self⟩
  rcases Nat.find_spec hex with ⟨m,j,hmem⟩
  have hfirst : ∀ {q' m' j'},(q',j') ∈ L m' → Nat.find hex ≤ q' :=
    fun h' => Nat.find_min' hex ⟨_,_,h'⟩
  rcases front_of_le (h.left_sorted m) (fun y hy => hfirst hy) hmem with ⟨l,hl⟩
  rcases front_of_le (h.right_sorted j) (fun y hy => hfirst ((h.same y.1 y.2 j).mpr hy))
    ((h.same _ m j).mp hmem) with ⟨r,hr⟩
  exact ⟨m,j,_,l,r,hl,hr⟩

section Step

variable {α : Type*} {l : List (ℕ×α)} {taken : Bool}

theorem mem_rest (hsorted : l.Pairwise fun x y => x.1<y.1) {x : ℕ×α} :
    x ∈ rest taken l ↔ x ∈ l ∧ ¬(taken=true ∧ ∃ l',l=x::l') := by
  unfold rest
  cases taken with
  | false =>
    rw [if_neg Bool.false_ne_true]
    exact ⟨fun h => ⟨h,fun h' => Bool.false_ne_true h'.1⟩,fun h => h.1⟩
  | true =>
    rw [if_pos rfl]
    cases l with
    | nil => exact ⟨fun h => absurd h List.not_mem_nil,fun h => h.1⟩
    | cons y ys =>
      rw [List.tail_cons]
      constructor
      · refine fun h => ⟨List.mem_cons_of_mem y h,?_⟩
        rintro ⟨-,l',hl'⟩
        have hlt := List.rel_of_pairwise_cons hsorted h
        rw [(List.cons.inj hl').1] at hlt
        exact Nat.lt_irrefl _ hlt
      · rintro ⟨hmem,hnot⟩
        rcases List.mem_cons.mp hmem with rfl | hx
        · exact absurd ⟨rfl,ys,rfl⟩ hnot
        · exact hx

theorem rest_sorted (hsorted : l.Pairwise fun x y => x.1<y.1) :
    (rest taken l).Pairwise fun x y => x.1<y.1 := by
  unfold rest
  split_ifs
  · exact hsorted.tail
  · exact hsorted

/-- A queue whose front is taken and which gets a new order. -/
def move (taken : Bool) (new : Option α) (now : ℕ) (l : List (ℕ×α)) : List (ℕ×α) :=
  rest taken l++(new.map (now,·)).toList

theorem mem_new {new : Option α} {q : ℕ} {x : α} :
    (q,x) ∈ (new.map (now,·)).toList ↔ q=now ∧ new=some x := by
  cases new with
  | none => simp
  | some y => simp [eq_comm]

theorem mem_move {new : Option α} {q : ℕ} {x : α} :
    (q,x) ∈ move taken new now l ↔ (q,x) ∈ rest taken l ∨ q=now ∧ new=some x := by
  rw [move,List.mem_append,mem_new]

theorem mem_of_mem_rest {l : List α} {x : α} (h : x ∈ rest taken l) : x ∈ l := by
  unfold rest at h
  split_ifs at h
  · exact List.mem_of_mem_tail h
  · exact h

theorem move_lt {new : Option α} (hlt : ∀ x ∈ l,x.1<now) :
    ∀ x ∈ move taken new now l,x.1<now+1 := by
  rintro ⟨q,x⟩ hx
  rcases mem_move.mp hx with hx | hx
  · exact Nat.lt_succ_of_lt (hlt _ (mem_of_mem_rest hx))
  · exact hx.1 ▸ Nat.lt_succ_self _

theorem move_sorted {new : Option α} (hsorted : l.Pairwise fun x y => x.1<y.1)
    (hlt : ∀ x ∈ l,x.1<now) : (move taken new now l).Pairwise fun x y => x.1<y.1 := by
  refine List.pairwise_append.mpr ⟨rest_sorted hsorted,?_,fun x hx y hy => ?_⟩
  · cases new with
    | none => exact List.Pairwise.nil
    | some y => exact List.pairwise_singleton _ _
  · rw [(mem_new (q:=y.1) (x:=y.2).mp hy).1]
    exact hlt x (mem_of_mem_rest hx)

/-- Orders that are taken from both queues and put on both keep the queues the same. -/
theorem Linked.step (h : Linked L R now) {pop : M → Bool} {pop' : S → Bool} {put : M → Option S}
    {put' : S → Option M}
    (hpop : ∀ m,pop m=true → ∃ j q l r,L m=(q,j)::l ∧ R j=(q,m)::r ∧ pop' j=true)
    (hpop' : ∀ j,pop' j=true → ∃ m q l r,L m=(q,j)::l ∧ R j=(q,m)::r ∧ pop m=true)
    (hput : ∀ m j,put m=some j ↔ put' j=some m) :
    Linked (fun m => move (pop m) (put m) now (L m)) (fun j => move (pop' j) (put' j) now (R j))
      (now+1) := by
  refine ⟨fun m => move_sorted (h.left_sorted m) (h.left_lt m),
    fun j => move_sorted (h.right_sorted j) (h.right_lt j),fun m => move_lt (h.left_lt m),
    fun j => move_lt (h.right_lt j),fun q m j => ?_⟩
  have hfront : (pop m=true ∧ ∃ l,L m=(q,j)::l) ↔ (pop' j=true ∧ ∃ r,R j=(q,m)::r) := by
    constructor
    · rintro ⟨hm,l,hl⟩
      rcases hpop m hm with ⟨j',q',l',r,hl',hr,hj⟩
      have heq := (List.cons.inj (hl.symm.trans hl')).1
      rw [Prod.mk.injEq] at heq
      rw [heq.1,heq.2]
      exact ⟨hj,r,hr⟩
    · rintro ⟨hj,r,hr⟩
      rcases hpop' j hj with ⟨m',q',l,r',hl,hr',hm⟩
      have heq := (List.cons.inj (hr.symm.trans hr')).1
      rw [Prod.mk.injEq] at heq
      rw [heq.1,heq.2]
      exact ⟨hm,l,hl⟩
  rw [mem_move,mem_move,mem_rest (h.left_sorted m),mem_rest (h.right_sorted j),h.same,hfront,hput]

end Step

end Pulpissimo.Tickets
