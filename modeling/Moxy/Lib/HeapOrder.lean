import Moxy.Lib.BinaryHeap

/-!
# The order of a binary heap

A heap is ordered if no element is smaller than its parent.  A sift starts from an
array that is ordered except around one position, the hole, and moves the hole up or
down until the order holds everywhere: `HoleUp` and `HoleDown` are what the two sifts
keep.  In an ordered heap the root is a smallest element (`IsHeap.peek_le`).

The comparison is a strict weak order: elements that are not comparable count as
equal.
-/

namespace Moxy
namespace Lib
namespace BinaryHeap

universe u

variable {α : Type u} {less : α → α → Bool}

/-- The comparisons that a heap works with. -/
structure StrictWeak (less : α → α → Bool) : Prop where
  asymm : ∀ {x y}, less x y = true → less y x = false
  not_trans : ∀ {x y z}, less x y = false → less y z = false → less x z = false

theorem StrictWeak.irrefl
    (hless : StrictWeak less) (x : α) :
    less x x = false := by
  cases h : less x x with
  | false => rfl
  | true => exact h.symm.trans (hless.asymm h)

section Positions

variable {h h' : Array α} {a b c : Nat}

/-- The comparison of two positions reads only these. -/
theorem lessAt_congr
    {a' b' : Nat}
    (ha : h'[a']? = h[a]?)
    (hb : h'[b']? = h[b]?) :
    lessAt less h' a' b' = lessAt less h a b := by
  simp only [lessAt, ha, hb]

theorem lessAt_of_left_out
    (ha : h.size ≤ a) :
    lessAt less h a b = false := by
  rw [lessAt, Array.getElem?_eq_none ha]

theorem lessAt_of_right_out
    (hb : h.size ≤ b) :
    lessAt less h a b = false := by
  rw [lessAt, Array.getElem?_eq_none hb]
  cases h[a]? <;> rfl

theorem lt_size_of_lessAt
    (hab : lessAt less h a b = true) :
    a < h.size ∧ b < h.size := by
  constructor
  · by_contra hout
    rw [lessAt_of_left_out (by omega)] at hab
    cases hab
  · by_contra hout
    rw [lessAt_of_right_out (by omega)] at hab
    cases hab

theorem lessAt_eq
    (ha : a < h.size)
    (hb : b < h.size) :
    lessAt less h a b = less h[a] h[b] := by
  rw [lessAt, Array.getElem?_eq_getElem ha, Array.getElem?_eq_getElem hb]

theorem lessAt_asymm
    (hless : StrictWeak less)
    (hab : lessAt less h a b = true) :
    lessAt less h b a = false := by
  obtain ⟨ha, hb⟩ := lt_size_of_lessAt hab
  rw [lessAt_eq ha hb] at hab
  rw [lessAt_eq hb ha]
  exact hless.asymm hab

theorem lessAt_irrefl
    (hless : StrictWeak less)
    (h : Array α)
    (a : Nat) :
    lessAt less h a a = false := by
  by_cases ha : a < h.size
  · rw [lessAt_eq ha ha]
    exact hless.irrefl _
  · exact lessAt_of_left_out (by omega)

theorem lessAt_trans
    (hless : StrictWeak less)
    (hb : b < h.size)
    (hab : lessAt less h a b = false)
    (hbc : lessAt less h b c = false) :
    lessAt less h a c = false := by
  by_cases ha : a < h.size
  · by_cases hc : c < h.size
    · rw [lessAt_eq ha hb] at hab
      rw [lessAt_eq hb hc] at hbc
      rw [lessAt_eq ha hc]
      exact hless.not_trans hab hbc
    · exact lessAt_of_right_out (by omega)
  · exact lessAt_of_left_out (by omega)

theorem getElem?_swapIfInBounds
    (ha : a < h.size)
    (hb : b < h.size)
    (k : Nat) :
    (h.swapIfInBounds a b)[k]? =
      if k = a then h[b]? else if k = b then h[a]? else h[k]? := by
  rw [Array.swapIfInBounds_def, dif_pos ha, dif_pos hb, Array.getElem?_swap]
  split_ifs with h₁ h₂ h₃ h₄ h₅
  all_goals subst_vars
  all_goals simp_all

end Positions

/-- No element among the first `n` is smaller than its parent. -/
def HeapTo (less : α → α → Bool) (n : Nat) (h : Array α) : Prop :=
  ∀ k, 0 < k → k < n → lessAt less h k ((k - 1) / 2) = false

/-- No element is smaller than its parent. -/
def IsHeap (less : α → α → Bool) (h : Array α) : Prop :=
  HeapTo less h.size h

section Up

variable {h : Array α} {j : Nat}

/-- Ordered, except that the element at `j` may be smaller than its parent. -/
structure HoleUp (less : α → α → Bool) (j : Nat) (h : Array α) : Prop where
  rest : ∀ k, 0 < k → k ≠ j → lessAt less h k ((k - 1) / 2) = false
  below : ∀ k, 0 < k → (k - 1) / 2 = j → k ≠ j →
    lessAt less h k ((j - 1) / 2) = false

/-- One swap moves the hole to the parent. -/
theorem HoleUp.swap
    (hless : StrictWeak less)
    (hole : HoleUp less j h)
    (hj : lessAt less h j ((j - 1) / 2) = true)
    (hne : (j - 1) / 2 ≠ j) :
    HoleUp less ((j - 1) / 2) (h.swapIfInBounds ((j - 1) / 2) j) := by
  obtain ⟨hjs, his⟩ := lt_size_of_lessAt hj
  have hget := getElem?_swapIfInBounds his hjs
  have hback := lessAt_asymm hless hj
  have hbelow := hole.below
  generalize hi : (j - 1) / 2 = i at *
  -- The old parent goes down to `j`, the element of the hole goes up to `i`.
  have hat_i : (h.swapIfInBounds i j)[i]? = h[j]? := by rw [hget, if_pos rfl]
  have hat_j : (h.swapIfInBounds i j)[j]? = h[i]? := by
    rw [hget, if_neg (Ne.symm hne), if_pos rfl]
  have hat : ∀ k, k ≠ i → k ≠ j → (h.swapIfInBounds i j)[k]? = h[k]? := by
    intro k hki hkj
    rw [hget, if_neg hki, if_neg hkj]
  have hsibling : ∀ k, 0 < k → (k - 1) / 2 = i → k ≠ j →
      lessAt less h k i = false := by
    intro k hk hparent hkj
    have hrest := hole.rest k hk hkj
    rwa [hparent] at hrest
  refine ⟨?_, ?_⟩
  · intro k hk hki
    by_cases hkj : k = j
    · subst hkj
      rw [hi, lessAt_congr hat_j hat_i]
      exact hback
    by_cases hpj : (k - 1) / 2 = j
    · rw [hpj, lessAt_congr (hat k hki hkj) hat_j]
      exact hbelow k hk hpj hkj
    by_cases hpi : (k - 1) / 2 = i
    · rw [hpi, lessAt_congr (hat k hki hkj) hat_i]
      exact lessAt_trans hless his (hsibling k hk hpi hkj) hback
    · rw [lessAt_congr (hat k hki hkj) (hat _ hpi hpj)]
      exact hole.rest k hk hkj
  · intro k hk hparent hki
    by_cases hroot : (i - 1) / 2 = i
    · -- The hole has reached the root: its children are compared with itself.
      rw [hroot]
      by_cases hkj : k = j
      · rw [hkj, lessAt_congr hat_j hat_i]
        exact hback
      · rw [lessAt_congr (hat k hki hkj) hat_i]
        exact lessAt_trans hless his (hsibling k hk hparent hkj) hback
    · have hup : lessAt less h i ((i - 1) / 2) = false :=
        hole.rest i (by omega) hne
      have hgrand : (i - 1) / 2 ≠ j := by omega
      by_cases hkj : k = j
      · rw [hkj, lessAt_congr hat_j (hat _ hroot hgrand)]
        exact hup
      · rw [lessAt_congr (hat k hki hkj) (hat _ hroot hgrand)]
        exact lessAt_trans hless his (hsibling k hk hparent hkj) hup

theorem up_isHeap
    (hless : StrictWeak less) :
    ∀ (fuel : Nat) (h : Array α) (j : Nat),
      j < fuel → HoleUp less j h → IsHeap less (up less fuel h j) := by
  intro fuel
  induction fuel with
  | zero =>
      intro h j hfuel _
      omega
  | succ fuel ih =>
      intro h j hfuel hole
      rw [up]
      split_ifs with hstop
      · intro k hk _
        by_cases hkj : k = j
        · subst hkj
          rcases hstop with hroot | hordered
          · omega
          · exact hordered
        · exact hole.rest k hk hkj
      · rw [not_or, Bool.not_eq_false] at hstop
        exact ih _ _ (by omega) (hole.swap hless hstop.2 hstop.1)

/-- Adding an element keeps the order. -/
theorem push_isHeap
    (hless : StrictWeak less)
    (hheap : IsHeap less h)
    (x : α) :
    IsHeap less (push less h x) := by
  refine up_isHeap hless _ _ _ (Nat.lt_succ_self _) ⟨?_, ?_⟩
  · intro k hk hne
    by_cases hin : k < h.size
    · have hold : ∀ i, i < h.size → (h.push x)[i]? = h[i]? := by
        intro i hi
        rw [Array.getElem?_push_lt hi, Array.getElem?_eq_getElem hi]
      rw [lessAt_congr (hold k hin) (hold _ (by omega))]
      exact hheap k hk hin
    · refine lessAt_of_left_out ?_
      rw [Array.size_push]
      omega
  · intro k hk hparent hne
    refine lessAt_of_left_out ?_
    rw [Array.size_push]
    omega

end Up

section Down

variable {h : Array α} {i n : Nat}

/-- Ordered up to `n`, except that a child of `i` may be smaller than `i`. -/
structure HoleDown (less : α → α → Bool) (i n : Nat) (h : Array α) : Prop where
  rest : ∀ k, 0 < k → k < n → (k - 1) / 2 ≠ i →
    lessAt less h k ((k - 1) / 2) = false
  below : 0 < i → ∀ k, 0 < k → k < n → (k - 1) / 2 = i →
    lessAt less h k ((i - 1) / 2) = false

theorem childOf_eq
    (less : α → α → Bool) (h : Array α) (i n : Nat) :
    childOf less h i n = 2 * i + 1 ∨ childOf less h i n = 2 * i + 2 := by
  unfold childOf
  split_ifs
  · exact Or.inr rfl
  · exact Or.inl rfl

/-- The chosen child is not larger than the other one. -/
theorem childOf_le
    (hless : StrictWeak less)
    {k : Nat}
    (hk : 0 < k)
    (hkn : k < n)
    (hparent : (k - 1) / 2 = i) :
    lessAt less h k (childOf less h i n) = false := by
  have hcases : k = 2 * i + 1 ∨ k = 2 * i + 2 := by omega
  unfold childOf
  split_ifs with hright
  · rcases hcases with rfl | rfl
    · exact lessAt_asymm hless hright.2
    · exact lessAt_irrefl hless h _
  · rcases hcases with rfl | rfl
    · exact lessAt_irrefl hless h _
    · rw [not_and, Bool.not_eq_true] at hright
      exact hright hkn

/-- One swap moves the hole to the chosen child. -/
theorem HoleDown.swap
    (hless : StrictWeak less)
    (hole : HoleDown less i n h)
    (hin : ¬ n ≤ 2 * i + 1)
    (hj : lessAt less h (childOf less h i n) i = true) :
    HoleDown less (childOf less h i n) n
      (h.swapIfInBounds i (childOf less h i n)) := by
  obtain ⟨hjs, his⟩ := lt_size_of_lessAt hj
  have hget := getElem?_swapIfInBounds his hjs
  have hback := lessAt_asymm hless hj
  have hleast : ∀ k, 0 < k → k < n → (k - 1) / 2 = i →
      lessAt less h k (childOf less h i n) = false :=
    fun k hk hkn hparent => childOf_le hless hk hkn hparent
  have hjn : childOf less h i n < n := childOf_lt less hin
  have hji : (childOf less h i n - 1) / 2 = i := by
    rcases childOf_eq less h i n with heq | heq <;> omega
  have hjpos : i < childOf less h i n := by
    rcases childOf_eq less h i n with heq | heq <;> omega
  generalize childOf less h i n = j at *
  have hat_i : (h.swapIfInBounds i j)[i]? = h[j]? := by rw [hget, if_pos rfl]
  have hat_j : (h.swapIfInBounds i j)[j]? = h[i]? := by
    rw [hget, if_neg (by omega), if_pos rfl]
  have hat : ∀ k, k ≠ i → k ≠ j → (h.swapIfInBounds i j)[k]? = h[k]? := by
    intro k hki hkj
    rw [hget, if_neg hki, if_neg hkj]
  refine ⟨?_, ?_⟩
  · intro k hk hkn hparent
    by_cases hkj : k = j
    · rw [hkj, hji, lessAt_congr hat_j hat_i]
      exact hback
    by_cases hki : k = i
    · rw [hki, lessAt_congr hat_i (hat _ (by omega) (by omega))]
      exact hole.below (by omega) j (by omega) hjn hji
    by_cases hpi : (k - 1) / 2 = i
    · rw [hpi, lessAt_congr (hat k hki hkj) hat_i]
      exact hleast k hk hkn hpi
    · rw [lessAt_congr (hat k hki hkj) (hat _ hpi hparent)]
      exact hole.rest k hk hkn hpi
  · intro _ k hk hkn hparent
    rw [hji, lessAt_congr (hat k (by omega) (by omega)) hat_i]
    have hrest := hole.rest k hk hkn (by omega)
    rwa [hparent] at hrest

theorem down_heapTo
    (hless : StrictWeak less) :
    ∀ (fuel : Nat) (h : Array α) (i : Nat),
      n ≤ fuel + i → n ≤ h.size → HoleDown less i n h →
      HeapTo less n (down less fuel h i n) := by
  intro fuel
  induction fuel with
  | zero =>
      intro h i hfuel _ hole k hk hkn
      exact hole.rest k hk hkn (by omega)
  | succ fuel ih =>
      intro h i hfuel hsize hole
      rw [down]
      dsimp only
      split_ifs with hleaf hstop
      · intro k hk hkn
        exact hole.rest k hk hkn (by omega)
      · intro k hk hkn
        by_cases hparent : (k - 1) / 2 = i
        · rw [hparent]
          have hjn := childOf_lt less (h := h) hleaf
          exact lessAt_trans hless (by omega)
            (childOf_le hless hk hkn hparent) hstop
        · exact hole.rest k hk hkn hparent
      · rw [Bool.not_eq_false] at hstop
        refine ih _ _ ?_ ?_ (hole.swap hless hleaf hstop)
        · rcases childOf_eq less h i n with heq | heq <;> omega
        · rw [Array.size_swapIfInBounds]
          exact hsize

/-- Removing the root keeps the order. -/
theorem pop_isHeap
    (hless : StrictWeak less)
    (hheap : IsHeap less h) :
    IsHeap less (pop less h) := by
  have hhole : HoleDown less 0 (h.size - 1) (h.swapIfInBounds 0 (h.size - 1)) := by
    refine ⟨?_, fun h0 => absurd h0 (by omega)⟩
    intro k hk hkn hparent
    have hget := getElem?_swapIfInBounds (h := h) (a := 0) (b := h.size - 1)
      (by omega) (by omega)
    have hat : ∀ m, m ≠ 0 → m ≠ h.size - 1 →
        (h.swapIfInBounds 0 (h.size - 1))[m]? = h[m]? := by
      intro m h0 hlast
      rw [hget, if_neg h0, if_neg hlast]
    rw [lessAt_congr (hat k (by omega) (by omega)) (hat _ hparent (by omega))]
    exact hheap k hk (by omega)
  have hdown := down_heapTo hless h.size _ 0 (by omega)
    (by rw [Array.size_swapIfInBounds]; omega) hhole
  intro k hk hkn
  rw [pop, Array.size_pop, down_size, Array.size_swapIfInBounds] at hkn
  have hat : ∀ m, m < h.size - 1 → (pop less h)[m]? =
      (down less h.size (h.swapIfInBounds 0 (h.size - 1)) 0 (h.size - 1))[m]? := by
    intro m hm
    rw [pop, Array.getElem?_pop, if_pos]
    rw [down_size, Array.size_swapIfInBounds]
    omega
  rw [lessAt_congr (hat k hkn) (hat _ (by omega))]
  exact hdown k hk hkn

end Down

section Root

variable {h : Array α} {x : α}

theorem IsHeap.empty : IsHeap less (#[] : Array α) := by
  intro k _ hk
  simp at hk

/-- The root is not larger than any position. -/
theorem IsHeap.root_le
    (hless : StrictWeak less)
    (hheap : IsHeap less h)
    (k : Nat) :
    lessAt less h k 0 = false := by
  induction k using Nat.strongRecOn with
  | ind k ih =>
      by_cases hk : k = 0
      · rw [hk]
        exact lessAt_irrefl hless h 0
      by_cases hin : k < h.size
      · exact lessAt_trans hless (by omega) (hheap k (by omega) hin)
          (ih _ (by omega))
      · exact lessAt_of_left_out (by omega)

/-- The root is a smallest element. -/
theorem IsHeap.peek_le
    (hless : StrictWeak less)
    (hheap : IsHeap less h)
    (hpeek : peek h = some x)
    {y : α}
    (hy : y ∈ h.toList) :
    less y x = false := by
  obtain ⟨k, hk, rfl⟩ := List.mem_iff_getElem.mp hy
  have hroot := hheap.root_le hless k
  have hk' : h[k]? = some (h.toList[k]) := by
    rw [← Array.getElem?_toList]
    exact List.getElem?_eq_getElem hk
  have hpeek' : h[0]? = some x := hpeek
  rw [lessAt, hk', hpeek'] at hroot
  exact hroot

end Root

end BinaryHeap
end Lib
end Moxy
