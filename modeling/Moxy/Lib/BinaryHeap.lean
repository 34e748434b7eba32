import Mathlib.Data.List.Perm.Basic

/-!
# Binary heaps in an array

`push` and `pop` are the classical array heap: a new element is appended and
sifted up, and a removal swaps the root with the last element, sifts the new
root down and drops the last element.

The lemmas of this module say which elements an operation keeps: `push` adds
one element, and `pop` removes exactly the root.
-/

namespace Moxy
namespace Lib
namespace BinaryHeap

universe u

variable {α : Type u} (less : α → α → Bool)

/-- Comparison of two positions. -/
def lessAt (h : Array α) (i j : Nat) : Bool :=
  match h[i]?, h[j]? with
  | some x, some y => less x y
  | _, _ => false

/-- Move the element at `j` towards the root; at most `fuel` levels. -/
def up : Nat → Array α → Nat → Array α
  | 0, h, _ => h
  | fuel + 1, h, j =>
      let i := (j - 1) / 2
      if i = j ∨ lessAt less h j i = false then h
      else up fuel (h.swapIfInBounds i j) i

/-- The child of `i` below `n` that a downward step compares with `i`. -/
def childOf (h : Array α) (i n : Nat) : Nat :=
  if 2 * i + 2 < n ∧ lessAt less h (2 * i + 2) (2 * i + 1) = true then
    2 * i + 2
  else 2 * i + 1

/-- Move the element at `i` towards the leaves inside the first `n` positions. -/
def down : Nat → Array α → Nat → Nat → Array α
  | 0, h, _, _ => h
  | fuel + 1, h, i, n =>
      if n ≤ 2 * i + 1 then h
      else
        let j := childOf less h i n
        if lessAt less h j i = false then h
        else down fuel (h.swapIfInBounds i j) j n

/-- Add one element. -/
def push (h : Array α) (x : α) : Array α :=
  up less (h.size + 1) (h.push x) h.size

/-- Remove the root. -/
def pop (h : Array α) : Array α :=
  (down less h.size (h.swapIfInBounds 0 (h.size - 1)) 0 (h.size - 1)).pop

/-- The root, if there is one. -/
def peek (h : Array α) : Option α :=
  h[0]?

theorem swapIfInBounds_perm
    (h : Array α) (i j : Nat) :
    (h.swapIfInBounds i j).toList.Perm h.toList := by
  rw [Array.swapIfInBounds_def]
  split
  · split
    · exact Array.perm_iff_toList_perm.mp (Array.swap_perm _ _)
    · exact List.Perm.refl _
  · exact List.Perm.refl _

theorem up_perm :
    ∀ (fuel : Nat) (h : Array α) (j : Nat),
      (up less fuel h j).toList.Perm h.toList := by
  intro fuel
  induction fuel with
  | zero =>
      intro h j
      exact List.Perm.refl _
  | succ fuel ih =>
      intro h j
      unfold up
      dsimp only
      split_ifs
      · exact List.Perm.refl _
      · exact (ih _ _).trans (swapIfInBounds_perm h _ _)

theorem down_perm :
    ∀ (fuel : Nat) (h : Array α) (i n : Nat),
      (down less fuel h i n).toList.Perm h.toList := by
  intro fuel
  induction fuel with
  | zero =>
      intro h i n
      exact List.Perm.refl _
  | succ fuel ih =>
      intro h i n
      unfold down
      dsimp only
      split_ifs
      · exact List.Perm.refl _
      · exact List.Perm.refl _
      · exact (ih _ _ _).trans (swapIfInBounds_perm h _ _)

theorem childOf_lt
    {h : Array α} {i n : Nat}
    (hi : ¬ n ≤ 2 * i + 1) :
    childOf less h i n < n := by
  unfold childOf
  split_ifs with hc
  · exact hc.1
  · omega

theorem getElem?_swapIfInBounds_above
    (h : Array α) {i j n k : Nat}
    (hi : i < n)
    (hj : j < n)
    (hk : n ≤ k) :
    (h.swapIfInBounds i j)[k]? = h[k]? := by
  rw [Array.swapIfInBounds_def]
  split
  · split
    · rw [Array.getElem?_swap]
      rw [if_neg (by omega), if_neg (by omega)]
    · rfl
  · rfl

/-- A downward pass inside the first `n` positions leaves the rest alone. -/
theorem down_getElem?_above {n k : Nat} (hk : n ≤ k) :
    ∀ (fuel : Nat) (h : Array α) (i : Nat),
      i < n → (down less fuel h i n)[k]? = h[k]? := by
  intro fuel
  induction fuel with
  | zero =>
      intro h i _
      rfl
  | succ fuel ih =>
      intro h i hi
      unfold down
      dsimp only
      split_ifs with h₁ h₂
      · rfl
      · rfl
      · have hj := childOf_lt less (h := h) h₁
        rw [ih _ _ hj]
        exact getElem?_swapIfInBounds_above h hi hj hk

theorem down_size
    (fuel : Nat) (h : Array α) (i n : Nat) :
    (down less fuel h i n).size = h.size := by
  have hp := (down_perm less fuel h i n).length_eq
  simpa using hp

/-- `push` keeps every element and adds the new one. -/
theorem push_perm
    (h : Array α) (x : α) :
    (push less h x).toList.Perm (x :: h.toList) := by
  unfold push
  refine (up_perm less _ _ _).trans ?_
  rw [Array.toList_push]
  exact List.perm_append_singleton x h.toList

/-- `pop` removes the element that `peek` shows. -/
theorem pop_perm
    {h : Array α} {x : α}
    (hx : peek h = some x) :
    h.toList.Perm (x :: (pop less h).toList) := by
  have hsize : 0 < h.size := by
    by_contra hz
    have hnone : peek h = none := by
      unfold peek
      exact Array.getElem?_eq_none (by omega)
    rw [hnone] at hx
    cases hx
  have hlast :
      (down less h.size (h.swapIfInBounds 0 (h.size - 1)) 0
        (h.size - 1))[h.size - 1]? = some x := by
    have hswap : (h.swapIfInBounds 0 (h.size - 1))[h.size - 1]? = some x := by
      rw [Array.swapIfInBounds_def, dif_pos hsize, dif_pos (by omega),
        Array.getElem?_swap, if_pos rfl, ← Array.getElem?_eq_getElem]
      exact hx
    by_cases hone : h.size - 1 = 0
    · rw [hone] at hswap ⊢
      rw [← hswap]
      cases hs : h.size with
      | zero => omega
      | succ n => simp [down]
    · rw [down_getElem?_above less (Nat.le_refl _) _ _ _ (by omega)]
      exact hswap
  generalize hd : down less h.size (h.swapIfInBounds 0 (h.size - 1)) 0
    (h.size - 1) = d at hlast
  have hdsize : d.size = h.size := by
    rw [← hd, down_size, Array.size_swapIfInBounds]
  have hback : d.toList = d.pop.toList ++ [x] := by
    have hb : d.toList.getLast? = some x := by
      rw [List.getLast?_eq_getElem?, Array.length_toList, hdsize,
        Array.getElem?_toList]
      exact hlast
    rw [Array.toList_pop]
    exact (List.dropLast_append_getLast? x hb).symm
  have hperm : d.toList.Perm h.toList := by
    rw [← hd]
    exact (down_perm less _ _ _ _).trans (swapIfInBounds_perm h _ _)
  have hpop : pop less h = d.pop := by
    unfold pop
    rw [hd]
  rw [hpop]
  refine hperm.symm.trans ?_
  rw [hback]
  exact List.perm_append_singleton x d.pop.toList

theorem mem_of_mem_pop
    {h : Array α} {x y : α}
    (hx : peek h = some x)
    (hy : y ∈ (pop less h).toList) :
    y ∈ h.toList :=
  (pop_perm less hx).mem_iff.mpr (List.mem_cons_of_mem x hy)

omit less in
theorem mem_of_peek
    {h : Array α} {x : α}
    (hx : peek h = some x) :
    x ∈ h.toList :=
  Array.mem_toList_iff.mpr (Array.mem_of_getElem? hx)

omit less in
/-- A heap with an element has a root. -/
theorem peek_of_mem
    {h : Array α} {x : α}
    (hx : x ∈ h.toList) :
    ∃ root, peek h = some root := by
  have hlength := List.length_pos_of_mem hx
  rw [Array.length_toList] at hlength
  exact ⟨h[0], Array.getElem?_eq_getElem hlength⟩

end BinaryHeap
end Lib
end Moxy
