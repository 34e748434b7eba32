import Mathlib.Data.List.Basic

/-!
# Queues that serve in order of arrival

Between two moments, elements arrive at the end of a queue and leave at its front.
`Passes before added taken after` is the whole account: what was there and what
arrived is, in this order, what left and what is there.

An element that is in the queue is passed by nothing that is behind it or arrives
later: the elements in front of it become fewer from the front (`Passes.front`), and
it leaves as soon as they have left (`Passes.leaves`).
-/

namespace Moxy
namespace Lib
namespace Fifo

universe u v

variable {α : Type u} {β : Type v}

/-- From `before` to `after`, with arrivals `added` and departures `taken`. -/
def Passes (before added taken after : List α) : Prop :=
  before ++ added = taken ++ after

namespace Passes

variable {before added taken after : List α}

theorem refl
    (queue : List α) :
    Passes queue [] [] queue :=
  List.append_nil queue

theorem arrive
    (queue new : List α) :
    Passes queue new [] (queue ++ new) :=
  rfl

theorem leave
    (first : α) (queue : List α) :
    Passes (first :: queue) [] [first] queue :=
  List.append_nil _

theorem trans
    {added' taken' later : List α}
    (h : Passes before added taken after)
    (h' : Passes after added' taken' later) :
    Passes before (added ++ added') (taken ++ taken') later := by
  unfold Passes at *
  rw [← List.append_assoc, h, List.append_assoc, h', List.append_assoc]

theorem map
    (f : α → β)
    (h : Passes before added taken after) :
    Passes (before.map f) (added.map f) (taken.map f) (after.map f) := by
  unfold Passes at *
  rw [← List.map_append, h, List.map_append]

/-- The departures are the first elements of the queue and the arrivals. -/
theorem getElem?_taken
    (h : Passes before added taken after)
    {i : Nat} (hi : i < taken.length) :
    taken[i]? = (before ++ added)[i]? := by
  rw [h, List.getElem?_append_left hi]

/-- As long as an element is in the queue, those in front of it are a rest of the old. -/
theorem front
    {ahead behind : List α} {x : α}
    (h : Passes (ahead ++ x :: behind) added taken after)
    (hfew : taken.length ≤ ahead.length) :
    ∃ behind', after = ahead.drop taken.length ++ x :: behind' := by
  have hafter : after = ((ahead ++ x :: behind) ++ added).drop taken.length := by
    rw [h, List.drop_left]
  refine ⟨behind ++ added, ?_⟩
  rw [hafter, List.append_assoc, List.drop_append_of_le_length hfew, List.cons_append]

/-- The departure that follows those in front of an element is the element. -/
theorem leaves
    {ahead behind : List α} {x : α}
    (h : Passes (ahead ++ x :: behind) added taken after)
    (hmany : ahead.length < taken.length) :
    taken[ahead.length]? = some x := by
  rw [h.getElem?_taken hmany, List.append_assoc, List.getElem?_append_right (Nat.le_refl _),
    Nat.sub_self]
  rfl

/-- What arrives first leaves first, if nothing like it has arrived before. -/
theorem first_in
    {front mid rest p q : List α} {x y : α}
    (h : Passes [] ((front ++ x :: mid) ++ y :: rest) (p ++ y :: q) after)
    (hy : y ∉ front ++ x :: mid) :
    x ∈ p := by
  have hx : x ∈ front ++ x :: mid := List.mem_append_right _ List.mem_cons_self
  have hsplit : (front ++ x :: mid) ++ y :: rest = p ++ (y :: q ++ after) :=
    Eq.trans h (List.append_assoc p (y :: q) after)
  rcases List.append_eq_append_iff.mp hsplit with ⟨between, rfl, _⟩ | ⟨between, hfront, hrest⟩
  · exact List.mem_append_left _ hx
  · cases between with
    | nil =>
        rw [List.append_nil] at hfront
        exact hfront ▸ hx
    | cons first between =>
        rw [List.cons_append, List.cons_append, List.cons.injEq] at hrest
        rw [hfront, ← hrest.1] at hy
        exact absurd (List.mem_append_right _ List.mem_cons_self) hy

end Passes

end Fifo
end Lib
end Moxy
